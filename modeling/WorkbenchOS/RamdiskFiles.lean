import WorkbenchOS.RamdiskFS
import WorkbenchOS.TransitionRuns

/-!
# Inodes and open files of the ramdisk

`read_inode` lets the number of inodes pass as an index, takes the table to
start right after the superblock, cuts the offset to 32 bits and does not see
that the device refuses. `OpenFile::read` leaves the end of the file to the
block device, which only knows its own size. What is read is the inode, or the
bytes of the file, for every content of the device exactly when the index, or
every read of the run, avoids these gaps.
-/

namespace WorkbenchOS.RamdiskFiles

open ByteMemory LibStd RamdiskFS TransitionRuns

/-- A device with these bytes that refuses some reads. -/
def deviceOf (refusal : ℕ→ℕ→Option Error) (image : Memory) : BlockDevice := fun offset size =>
  match refusal offset size with
  | some error => .error error
  | none => .ok (fun i => image (offset+i))

/-- What `MemoryBlockDevice::read` refuses. -/
def memoryRefusal (deviceSize offset size : ℕ) : Option Error :=
  if u64 (offset+size)>deviceSize then some (.fromCode 1) else none

section Devices

variable {refusal : ℕ→ℕ→Option Error} {image : Memory} {offset size : ℕ}

/-- It delivers. -/
theorem deviceOf_delivers (h : refusal offset size=none) :
    deviceOf refusal image offset size=.ok (fun i => image (offset+i)) := by
  unfold deviceOf
  rw [h]

/-- It refuses. -/
theorem deviceOf_refuses {error : Error} (h : refusal offset size=some error) :
    deviceOf refusal image offset size=.error error := by
  unfold deviceOf
  rw [h]

/-- A memory device is such a device. -/
theorem memoryDevice_eq (device : MemoryBlockDevice) :
    device.read=deviceOf (memoryRefusal device.size) device.image := by
  funext offset size
  rw [MemoryBlockDevice.read,deviceOf,memoryRefusal]
  split_ifs <;> rfl

end Devices

section Inodes

/-- The inode is entry `index` of the inode table. -/
structure InTable (superblock : Superblock) (image : Memory) (index : ℕ) (inode : Inode) :
    Prop where
  /-- There is such an entry. -/
  index_lt : index<superblock.inodeTableSize
  /-- Its offset is a `u32`. -/
  offset_lt : superblock.inodeTableOffset+sizeofInode*index<2^32
  /-- The inode is made of the eight bytes there. -/
  bytes : inode=inodeAt (fun i => image (superblock.inodeTableOffset+sizeofInode*index+i))

/-- When `read_inode` succeeds, its result is the entry of the table. -/
def ReadsTable (fs : Filesystem) (image : Memory) (index : ℕ) : Prop :=
  ∀ reader : BlockDeviceReader,reader.device=fs.device → ∀ inode after,
    (readInode fs reader index).run=some (.ok (inode,after)) →
      InTable fs.superblock image index inode

/-- The entry is where the code looks for it, and is delivered. -/
structure Located (refusal : ℕ→ℕ→Option Error) (superblock : Superblock) (index : ℕ) :
    Prop where
  /-- There is such an entry. -/
  index_lt : index<superblock.inodeTableSize
  /-- The table starts after the superblock. -/
  start : superblock.inodeTableOffset=sizeofSuperblock
  /-- The offset is a `u32`. -/
  offset_lt : sizeofSuperblock+sizeofInode*index<2^32
  /-- The device delivers the entry. -/
  delivered : refusal (sizeofSuperblock+sizeofInode*index) sizeofInode=none

variable {refusal : ℕ→ℕ→Option Error} {superblock : Superblock} {index : ℕ}

/-- `read_inode` refuses an index above the number of inodes. -/
theorem readInode_error {fs : Filesystem} (reader : BlockDeviceReader)
    (h : fs.superblock.inodeTableSize< index) :
    (readInode fs reader index).run=some (.error (.fromCode 1)) := by
  rw [readInode,if_pos h]
  rfl

/-- Any other one is read, wherever the reader stands. -/
theorem readInode_ok {fs : Filesystem} {reader after : BlockDeviceReader} {inode : Inode}
    (hreader : reader.device=fs.device) (h : index≤fs.superblock.inodeTableSize)
    (hrun : (readInode fs reader index).run=some (.ok (inode,after))) :
    inode=inodeWith fs index := by
  obtain ⟨next,-,hnext⟩ := readInode_run reader hreader h
  rw [hrun] at hnext
  cases hnext
  rfl

/-- So one inode is at stake. -/
theorem readsTable_iff_inTable {fs : Filesystem} {image : Memory}
    (h : index≤fs.superblock.inodeTableSize) :
    ReadsTable fs image index ↔ InTable fs.superblock image index (inodeWith fs index) := by
  constructor
  · intro hreads
    obtain ⟨after,-,hrun⟩ := readInode_run ⟨fs.device,0⟩ rfl h
    exact hreads ⟨fs.device,0⟩ rfl _ after hrun
  · intro htable reader hreader inode after hrun
    rw [readInode_ok hreader h hrun]
    exact htable

/-- The content with one byte other than zero. -/
def probe (address : ℕ) : Memory := fun x => if x=address then 1 else 0

/-- A window of eight bytes starts at that byte exactly when the low byte of its
first word is not zero. -/
theorem probe_offset (address start : ℕ) :
    (inodeAt (fun i => probe address (start+i))).offset%256=if start=address then 1 else 0 := by
  have hword : (inodeAt (fun i => probe address (start+i))).offset=(probe address start).toNat+
      256*readLE (fun i => probe address (start+i)) 1 3 := rfl
  rw [hword,Nat.add_mul_mod_self_left,probe]
  split_ifs <;> rfl

/-- What the code makes of the bytes of a device. -/
theorem inodeWith_delivered {image : Memory}
    (h : refusal ((sizeofSuperblock+sizeofInode*index)%2^32) sizeofInode=none) :
    inodeWith ⟨deviceOf refusal image,superblock⟩ index=
      inodeAt (fun i => image ((sizeofSuperblock+sizeofInode*index)%2^32+i)) := by
  unfold inodeWith
  dsimp only
  rw [deviceOf_delivers h]
  rfl

/-- What it makes of a refusal. -/
theorem inodeWith_refused {image : Memory} {error : Error}
    (h : refusal ((sizeofSuperblock+sizeofInode*index)%2^32) sizeofInode=some error) :
    inodeWith ⟨deviceOf refusal image,superblock⟩ index=⟨0,0⟩ := by
  unfold inodeWith
  dsimp only
  rw [deviceOf_refuses h]
  rfl

/-- An entry where the code looks for it is read. -/
theorem Located.inTable (h : Located refusal superblock index) (image : Memory) :
    InTable superblock image index (inodeWith ⟨deviceOf refusal image,superblock⟩ index) := by
  have hmod := Nat.mod_eq_of_lt h.offset_lt
  refine ⟨h.index_lt,?_,?_⟩
  · rw [h.start]
    exact h.offset_lt
  · rw [inodeWith_delivered (by rw [hmod]; exact h.delivered),hmod,h.start]

/-- Only such an entry is read from every content. -/
theorem located_of_forall
    (h : ∀ image,InTable superblock image index
      (inodeWith ⟨deviceOf refusal image,superblock⟩ index)) :
    Located refusal superblock index := by
  have htable := h (probe (superblock.inodeTableOffset+sizeofInode*index))
  have hbytes := htable.bytes
  have hlow := probe_offset (superblock.inodeTableOffset+sizeofInode*index)
  cases hrefusal : refusal ((sizeofSuperblock+sizeofInode*index)%2^32) sizeofInode with
  | some error =>
    -- the code returns zeros
    have hone := hlow (superblock.inodeTableOffset+sizeofInode*index)
    rw [← hbytes,inodeWith_refused hrefusal,if_pos rfl] at hone
    cases hone
  | none =>
    have hone := hlow (superblock.inodeTableOffset+sizeofInode*index)
    rw [← hbytes,inodeWith_delivered hrefusal,hlow,if_pos rfl] at hone
    have hstart : (sizeofSuperblock+sizeofInode*index)%2^32=
        superblock.inodeTableOffset+sizeofInode*index := by
      by_contra hne
      rw [if_neg hne] at hone
      cases hone
    -- a wrapped offset is below every entry of the table
    have hlt : sizeofSuperblock+sizeofInode*index<2^32 := by
      unfold sizeofSuperblock sizeofInode at hstart ⊢
      omega
    rw [Nat.mod_eq_of_lt hlt] at hstart hrefusal
    exact ⟨htable.index_lt,by omega,hlt,hrefusal⟩

end Inodes

/-- Whatever bytes a device has, `read_inode` returns the entry of the inode
table or fails exactly when the index is above the number of inodes, or below
it with the entry where the code looks. -/
theorem readsTable_iff (refusal : ℕ→ℕ→Option Error) (superblock : Superblock) (index : ℕ) :
    (∀ image,ReadsTable ⟨deviceOf refusal image,superblock⟩ image index) ↔
      superblock.inodeTableSize< index ∨ Located refusal superblock index := by
  by_cases h : index≤ superblock.inodeTableSize
  · have hone : ∀ image,ReadsTable ⟨deviceOf refusal image,superblock⟩ image index ↔
        InTable superblock image index (inodeWith ⟨deviceOf refusal image,superblock⟩ index) :=
      fun image => readsTable_iff_inTable h
    constructor
    · intro hreads
      exact Or.inr (located_of_forall fun image => (hone image).mp (hreads image))
    · rintro (habove | hlocated)
      · omega
      · exact fun image => (hone image).mpr (hlocated.inTable image)
  · have habove : superblock.inodeTableSize< index := by omega
    refine ⟨fun _ => Or.inl habove,fun _ image reader _ inode after hrun => ?_⟩
    rw [readInode_error reader habove] at hrun
    cases hrun

/-- The number of inodes is an index that `read_inode` accepts. -/
theorem number_of_inodes_read :
    initFilesystem sampleDevice.read=.ok sampleFilesystem ∧
      ¬ReadsTable sampleFilesystem sampleDevice.image 5 := by
  refine ⟨init_sampleDevice,fun h => ?_⟩
  have htable := (readsTable_iff_inTable (by decide)).mp h
  exact absurd htable.index_lt (by decide)

section OpenFiles

/-- `Filesystem::read`, with the bytes the buffer receives. -/
def filesystemRead (fs : Filesystem) (buffer : ℕ) (inode : Inode) (offset size : ℕ) :
    Except Error Memory :=
  if buffer=0 then .error (.fromCode 1)
  else (BlockDeviceReader.readBuffer
    (BlockDeviceReader.seek ⟨fs.device,0⟩ (u64 (dataOffset fs inode+offset))) size).map Prod.fst

/-- `OpenFile::read`. -/
def openFileRead (fs : Filesystem) (file : OpenFile) (buffer size : ℕ) :
    Except Error Memory×OpenFile :=
  match filesystemRead fs buffer file.inode file.readOffset size with
  | .error error => (.error error,file)
  | .ok bytes => (.ok bytes,{file with readOffset := u64 (file.readOffset+size)})

/-- A file that has been read from. -/
structure Session where
  /-- The file. -/
  file : OpenFile
  /-- The sizes of the successful reads, added up. -/
  delivered : ℕ

/-- A call of `read`. -/
structure ReadCall where
  /-- `buffer`. -/
  buffer : ℕ
  /-- `size`. -/
  size : ℕ

/-- The result of the call. -/
def resultOf (fs : Filesystem) (session : Session) (call : ReadCall) :
    Except Error Memory×OpenFile :=
  openFileRead fs session.file call.buffer call.size

/-- One call. -/
def sessionStep (fs : Filesystem) (session : Session) (call : ReadCall) : Option Session :=
  some ⟨(resultOf fs session call).2,
    session.delivered+if (resultOf fs session call).1.isOk then call.size else 0⟩

/-- The call yields bytes of the file. -/
structure OwnBytes (fs : Filesystem) (image : Memory) (session : Session) (call : ReadCall) :
    Prop where
  /-- A failed read keeps the position. -/
  kept : ∀ error,(resultOf fs session call).1=.error error →
    (resultOf fs session call).2.readOffset=session.file.readOffset
  /-- A successful one returns the bytes after those of the earlier ones. -/
  bytes : ∀ bytes,(resultOf fs session call).1=.ok bytes → ∀ i<call.size,
    bytes i=image (fs.superblock.dataTableOffset+session.file.inode.offset+session.delivered+i)
  /-- They are before the end of the file. -/
  within : ∀ bytes,(resultOf fs session call).1=.ok bytes → ∀ i<call.size,
    session.delivered+i<session.file.inode.size

/-- `read` fails. -/
def Refused (refusal : ℕ→ℕ→Option Error) (superblock : Superblock) (file : OpenFile)
    (call : ReadCall) : Prop :=
  call.buffer=0 ∨ (refusal (u64 ((superblock.dataTableOffset+file.inode.offset)%2^32+
    file.readOffset)) call.size).isSome

/-- The bytes asked for are bytes of the file, which starts at a `u32`. -/
structure InFile (superblock : Superblock) (file : OpenFile) (call : ReadCall) : Prop where
  /-- They end before the file. -/
  size_le : file.readOffset+call.size≤file.inode.size
  /-- The start of the file. -/
  offset_lt : superblock.dataTableOffset+file.inode.offset<2^32

/-- The call is refused, asks for nothing or stays in the file. -/
def StaysInside (refusal : ℕ→ℕ→Option Error) (superblock : Superblock) (session : Session)
    (call : ReadCall) : Prop :=
  Refused refusal superblock session.file call ∨ call.size=0 ∨
    InFile superblock session.file call

/-- An open file whose position tells how much was delivered. -/
structure Sound (inode : Inode) (session : Session) : Prop where
  /-- The file is that of the inode. -/
  inode_eq : session.file.inode=inode
  /-- The position. -/
  position : session.file.readOffset=session.delivered
  /-- It is in the file. -/
  delivered_le : session.delivered≤ inode.size

variable {refusal : ℕ→ℕ→Option Error} {superblock : Superblock} {image : Memory}
  {session : Session} {call : ReadCall} {inode : Inode}

/-- The file system on a device with these bytes. -/
def onDevice (refusal : ℕ→ℕ→Option Error) (superblock : Superblock) (image : Memory) :
    Filesystem :=
  ⟨deviceOf refusal image,superblock⟩

/-- With a buffer the device decides. -/
theorem filesystemRead_eq (fs : Filesystem) {buffer : ℕ} (hbuffer : buffer≠0) (inode : Inode)
    (offset size : ℕ) :
    filesystemRead fs buffer inode offset size=
      fs.device (u64 (dataOffset fs inode+offset)) size := by
  rw [filesystemRead,if_neg hbuffer,BlockDeviceReader.readBuffer,BlockDeviceReader.seek]
  dsimp only
  cases fs.device (u64 (dataOffset fs inode+offset)) size <;> rfl

/-- What a refused read returns. -/
theorem resultOf_refused (h : Refused refusal superblock session.file call) :
    ∃ error,∀ image,resultOf (onDevice refusal superblock image) session call=
      (.error error,session.file) := by
  have hread : ∃ error,∀ image,filesystemRead (onDevice refusal superblock image) call.buffer
      session.file.inode session.file.readOffset call.size=.error error := by
    by_cases hbuffer : call.buffer=0
    · exact ⟨.fromCode 1,fun image => if_pos hbuffer⟩
    · obtain ⟨error,herror⟩ := Option.isSome_iff_exists.mp (h.resolve_left hbuffer)
      refine ⟨error,fun image => ?_⟩
      rw [filesystemRead_eq _ hbuffer]
      exact deviceOf_refuses herror
  obtain ⟨error,herror⟩ := hread
  refine ⟨error,fun image => ?_⟩
  rw [resultOf,openFileRead,herror]

/-- What any other read returns. -/
theorem resultOf_accepted (h : ¬Refused refusal superblock session.file call) (image : Memory) :
    resultOf (onDevice refusal superblock image) session call=
      (.ok (fun i => image (u64 ((superblock.dataTableOffset+session.file.inode.offset)%2^32+
          session.file.readOffset)+i)),
        {session.file with readOffset := u64 (session.file.readOffset+call.size)}) := by
  obtain ⟨hbuffer,hdevice⟩ := not_or.mp h
  have hread : filesystemRead (onDevice refusal superblock image) call.buffer session.file.inode
      session.file.readOffset call.size=.ok (fun i => image (u64 ((superblock.dataTableOffset+
        session.file.inode.offset)%2^32+session.file.readOffset)+i)) := by
    rw [filesystemRead_eq _ hbuffer]
    exact deviceOf_delivers (Option.not_isSome_iff_eq_none.mp hdevice)
  rw [resultOf,openFileRead,hread]

/-- The state after a call does not depend on the bytes of the device. -/
theorem sessionStep_image (refusal : ℕ→ℕ→Option Error) (superblock : Superblock)
    (first second : Memory) (session : Session) (call : ReadCall) :
    sessionStep (onDevice refusal superblock first) session call=
      sessionStep (onDevice refusal superblock second) session call := by
  by_cases h : Refused refusal superblock session.file call
  · obtain ⟨error,herror⟩ := resultOf_refused h
    rw [sessionStep,sessionStep,herror,herror]
  · rw [sessionStep,sessionStep,resultOf_accepted h,resultOf_accepted h]
    rfl

/-- A call that is refused does not move. -/
theorem sessionStep_refused (h : Refused refusal superblock session.file call) :
    sessionStep (onDevice refusal superblock image) session call=some session := by
  obtain ⟨error,herror⟩ := resultOf_refused h
  rw [sessionStep,herror]
  rfl

/-- Any other one advances by its size. -/
theorem sessionStep_accepted (h : ¬Refused refusal superblock session.file call) :
    sessionStep (onDevice refusal superblock image) session call=
      some ⟨{session.file with readOffset := u64 (session.file.readOffset+call.size)},
        session.delivered+call.size⟩ := by
  rw [sessionStep,resultOf_accepted h]
  rfl

/-- A call that stays inside keeps the position that of the bytes delivered. -/
theorem StaysInside.sound_next (h : StaysInside refusal superblock session call)
    (hs : Sound inode session) (hsize : inode.size<2^32) {next : Session}
    (hnext : sessionStep (onDevice refusal superblock image) session call=some next) :
    Sound inode next := by
  obtain ⟨hinode,hposition,hdelivered⟩ := hs
  by_cases hrefused : Refused refusal superblock session.file call
  · rw [sessionStep_refused hrefused] at hnext
    cases hnext
    exact ⟨hinode,hposition,hdelivered⟩
  · rw [sessionStep_accepted hrefused] at hnext
    cases hnext
    have hend : session.delivered+call.size≤ inode.size := by
      rcases h.resolve_left hrefused with hzero|hinside
      · omega
      · rw [← hposition,← hinode]
        exact hinside.size_le
    refine ⟨hinode,?_,hend⟩
    dsimp only
    rw [hposition,u64_of_lt (by omega)]

/-- It yields bytes of the file. -/
theorem StaysInside.ownBytes (h : StaysInside refusal superblock session call)
    (hs : Sound inode session) (hsize : inode.size<2^32) (image : Memory) :
    OwnBytes (onDevice refusal superblock image) image session call := by
  by_cases hrefused : Refused refusal superblock session.file call
  · obtain ⟨error,herror⟩ := resultOf_refused hrefused
    refine ⟨fun _ _ => by rw [herror],?_,?_⟩ <;>
    · intro bytes hbytes
      rw [herror] at hbytes
      cases hbytes
  · have hresult := resultOf_accepted hrefused image
    refine ⟨?_,?_,?_⟩
    · intro error herror
      rw [hresult] at herror
      cases herror
    · intro bytes hbytes i hi
      rw [hresult] at hbytes
      cases hbytes
      rcases h.resolve_left hrefused with hzero|hinside
      · omega
      · have hend := hinside.size_le
        have hlow := hinside.offset_lt
        rw [hs.inode_eq] at hend
        rw [Nat.mod_eq_of_lt hlow,u64_of_lt (by omega),hs.position]
        rfl
    · intro bytes hbytes i hi
      rcases h.resolve_left hrefused with hzero|hinside
      · omega
      · have hend := hinside.size_le
        rw [hs.position] at hend
        omega

/-- Only such a call does so for every content of the device. -/
theorem staysInside_of_forall (hs : Sound inode session) (hsize : inode.size<2^32)
    (h : ∀ image,OwnBytes (onDevice refusal superblock image) image session call) :
    StaysInside refusal superblock session call := by
  by_cases hrefused : Refused refusal superblock session.file call
  · exact Or.inl hrefused
  by_cases hzero : call.size=0
  · exact Or.inr (Or.inl hzero)
  have hposition := hs.position
  have hle := hs.delivered_le
  -- the last byte is in the file
  have hlast := (h (fun _ => 0)).within _ (by rw [resultOf_accepted hrefused]) (call.size-1)
    (by omega)
  -- and the first one is read where the file has it
  have hfirst := (h (probe (superblock.dataTableOffset+session.file.inode.offset+
    session.delivered))).bytes _ (by rw [resultOf_accepted hrefused]) 0 (by omega)
  have hplace : (superblock.dataTableOffset+session.file.inode.offset)%2^32+
      session.file.readOffset=superblock.dataTableOffset+session.file.inode.offset+
        session.delivered := by
    have hmod := Nat.mod_lt (superblock.dataTableOffset+session.file.inode.offset)
      (by decide : 0<2^32)
    by_contra hne
    rw [u64_of_lt (by omega),probe,probe,if_neg (by omega)] at hfirst
    exact absurd hfirst (by simp [onDevice])
  exact Or.inr (Or.inr ⟨by omega,by omega⟩)

end OpenFiles

section Sample

/-- The words of an image with the files `f`, of two bytes, and after it `g`:
superblock, five inodes, the root directory, the names and the files. -/
def shelfWords : List ℕ :=
  [0x017dce23,1,20,5,60,0,28,28,1,36,2,32,1,40,4,2,1,1,2,1,3,4,102,103,0x0605,0x09090909]

/-- The device with these words. -/
def shelfDevice : MemoryBlockDevice where
  image := fun i => UInt8.ofNat (shelfWords.getD (i/4) 0/256^(i%4))
  size := 104

/-- The file system on it. -/
def shelfFilesystem : Filesystem := ⟨shelfDevice.read,⟨0x017dce23,1,20,5,60⟩⟩

/-- It is what `init` makes of the device. -/
theorem init_shelfDevice : initFilesystem shelfDevice.read=.ok shelfFilesystem := by
  have hsuperblock : superblockAt (BlockDeviceReader.read ⟨shelfDevice.read,0⟩
      sizeofSuperblock).1=⟨0x017dce23,1,20,5,60⟩ := by decide +kernel
  rw [initFilesystem,hsuperblock]
  rfl

/-- It is a file system on a device with these bytes. -/
theorem shelfFilesystem_eq : shelfFilesystem=
    onDevice (memoryRefusal 104) ⟨0x017dce23,1,20,5,60⟩ shelfDevice.image := by
  rw [shelfFilesystem,memoryDevice_eq]
  rfl

/-- The file `f` is opened with its two bytes. -/
theorem open_shelf : (openFile shelfFilesystem sampleHeap [102]).run=some (.ok ⟨⟨36,2⟩,0⟩) := by
  have hpath : pathOf [[102]]=[102] := rfl
  rw [← hpath,openFile_ok_iff ⟨by decide,by decide,by decide⟩,detour_singleton]
  decide +kernel

/-- Eight bytes are read from it: its two, the gap and the bytes of `g`. -/
theorem read_shelf : (filesystemRead shelfFilesystem 4096 ⟨36,2⟩ 0 8).map
    (fun bytes => (List.range 8).map bytes)=.ok [5,6,0,0,9,9,9,9] := by
  decide +kernel

end Sample

/-- A file read from its start on yields its own bytes, and each failed read
keeps the position, in every run whose calls are refused, ask for nothing or
stay in the file; a run that does so for every content of the device is such a
run. -/
theorem each_ownBytes (refusal : ℕ→ℕ→Option Error) (superblock : Superblock) {inode : Inode}
    (hsize : inode.size<2^32) (calls : List ReadCall) :
    (∀ image,Each (sessionStep (onDevice refusal superblock image))
        (StaysInside refusal superblock) ⟨⟨inode,0⟩,0⟩ calls →
      Each (sessionStep (onDevice refusal superblock image))
        (OwnBytes (onDevice refusal superblock image) image) ⟨⟨inode,0⟩,0⟩ calls) ∧
    ((∀ image,Each (sessionStep (onDevice refusal superblock image))
        (OwnBytes (onDevice refusal superblock image) image) ⟨⟨inode,0⟩,0⟩ calls) →
      ∀ image,Each (sessionStep (onDevice refusal superblock image))
        (StaysInside refusal superblock) ⟨⟨inode,0⟩,0⟩ calls) := by
  have hstart : Sound inode ⟨⟨inode,0⟩,0⟩ := ⟨rfl,rfl,Nat.zero_le _⟩
  constructor
  · intro image hinside
    refine @each_of_each _ _ _ _ (Sound inode) _ ?_ ?_ _ _ hstart hinside
    · exact fun session call hs h => ⟨_,rfl,h.sound_next hs hsize rfl⟩
    · exact fun session call hs h => h.ownBytes hs hsize image
  · intro hown
    refine @each_of_forall_each _ _ _ (Sound inode) _ _ _ (sessionStep_image refusal superblock)
      ?_ ?_ _ _ hstart hown
    · exact fun session call hs h => staysInside_of_forall hs hsize h
    · exact fun image session call hs h next hnext => h.sound_next hs hsize hnext

/-- The file `f` read byte by byte, to its end. -/
theorem shelf_ownBytes : Each (sessionStep shelfFilesystem)
    (OwnBytes shelfFilesystem shelfDevice.image) ⟨⟨⟨36,2⟩,0⟩,0⟩
      [⟨4096,1⟩,⟨0,1⟩,⟨4096,1⟩] := by
  rw [shelfFilesystem_eq]
  refine (each_ownBytes (memoryRefusal 104) ⟨0x017dce23,1,20,5,60⟩ (by decide) _).1
    shelfDevice.image ⟨Or.inr (Or.inr ⟨by decide,by decide⟩),?_⟩
  intro first hfirst
  cases hfirst
  refine ⟨Or.inl (Or.inl rfl),fun second hsecond => ?_⟩
  cases hsecond
  refine ⟨Or.inr (Or.inr ⟨by decide,by decide⟩),fun _ _ => trivial⟩

/-- One read of the open file `f` returns bytes of `g`. -/
theorem not_each_ownBytes :
    initFilesystem shelfDevice.read=.ok shelfFilesystem ∧
      (openFile shelfFilesystem sampleHeap [102]).run=some (.ok ⟨⟨36,2⟩,0⟩) ∧
      ¬Each (sessionStep shelfFilesystem) (OwnBytes shelfFilesystem shelfDevice.image)
        ⟨⟨⟨36,2⟩,0⟩,0⟩ [⟨4096,8⟩] := by
  refine ⟨init_shelfDevice,open_shelf,fun h => ?_⟩
  cases hread : filesystemRead shelfFilesystem 4096 ⟨36,2⟩ 0 8 with
  | error error =>
    have hshelf := read_shelf
    rw [hread] at hshelf
    cases hshelf
  | ok bytes =>
    have hresult : (resultOf shelfFilesystem ⟨⟨⟨36,2⟩,0⟩,0⟩ ⟨4096,8⟩).1=.ok bytes := by
      rw [resultOf,openFileRead,hread]
    exact absurd (h.1.within bytes hresult 7 (by decide)) (by decide)

end WorkbenchOS.RamdiskFiles
