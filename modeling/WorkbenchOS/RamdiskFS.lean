import Mathlib.Data.Nat.Count
import WorkbenchOS.ByteMemory
import WorkbenchOS.LibStd
import WorkbenchOS.StringSplitter

/-!
# Path lookup of the ramdisk file system

`Filesystem::open` and all it calls, on a block device in memory. The loop that
looks for the directory of a file never advances `current_search_depth` and
raises `max_search_depth`, so for a path of several components it looks the
first one up again and again until the 64-bit bound wraps to zero; the file is
then looked up under the text of the whole path. Every name that is read leaves
its buffer behind: the heap has none left before the bound wraps, and names
without a buffer are empty. So no path of several components is opened.
-/

namespace WorkbenchOS.RamdiskFS

open ByteMemory LibStd StringSplitter

/-- `BlockDevice::read` of `size` bytes from `offset` on: the bytes the buffer
receives, from its start on, or an error and no byte is written. -/
abbrev BlockDevice := (offset size : ℕ)→Except Error Memory

/-- The fields of `MemoryBlockDevice`. -/
structure MemoryBlockDevice where
  /-- The bytes `m_address` points at. -/
  image : Memory
  /-- `m_size`. -/
  size : ℕ

/-- `MemoryBlockDevice::read`. -/
def MemoryBlockDevice.read (device : MemoryBlockDevice) : BlockDevice := fun offset size =>
  if u64 (offset+size)>device.size then .error (.fromCode 1)
  else .ok (fun i => device.image (offset+i))

/-- The fields of `BlockDeviceReader`. -/
structure BlockDeviceReader where
  /-- `m_block_device`. -/
  device : BlockDevice
  /-- `m_offset`. -/
  offset : ℕ

/-- `BlockDeviceReader::seek`. -/
def BlockDeviceReader.seek (reader : BlockDeviceReader) (offset : ℕ) : BlockDeviceReader :=
  {reader with offset := offset}

/-- `BlockDeviceReader::read<T>` for a `T` of `size` bytes. The buffer is zero
at first and the device's result is not looked at. -/
def BlockDeviceReader.read (reader : BlockDeviceReader) (size : ℕ) : Memory×BlockDeviceReader :=
  ((reader.device reader.offset size).toOption.getD (fun _ => 0),
    {reader with offset := u64 (reader.offset+size)})

/-- `BlockDeviceReader::read_buffer`. -/
def BlockDeviceReader.readBuffer (reader : BlockDeviceReader) (size : ℕ) :
    Except Error (Memory×BlockDeviceReader) :=
  (reader.device reader.offset size).map
    (fun bytes => (bytes,{reader with offset := u64 (reader.offset+size)}))

/-- `Superblock`. -/
structure Superblock where
  /-- `magic`. -/
  magic : ℕ
  /-- `version`. -/
  version : ℕ
  /-- `inode_table_offset`. -/
  inodeTableOffset : ℕ
  /-- `inode_table_size`. -/
  inodeTableSize : ℕ
  /-- `data_table_offset`. -/
  dataTableOffset : ℕ
  deriving DecidableEq

/-- `sizeof(Superblock)`. -/
def sizeofSuperblock : ℕ := 20

/-- `MAGIC`. -/
def ramdiskMagic : ℕ := 0x017dce23

/-- `Inode`. -/
structure Inode where
  /-- `offset`, from the start of the data table. -/
  offset : ℕ
  /-- `size`, in bytes. -/
  size : ℕ
  deriving DecidableEq

/-- `sizeof(Inode)`. -/
def sizeofInode : ℕ := 8

/-- `DirectoryEntry`. -/
structure DirectoryEntry where
  /-- `type`. -/
  type : ℕ
  /-- `filename_inode`. -/
  filenameInode : ℕ
  /-- `data_inode`. -/
  dataInode : ℕ

/-- `sizeof(DirectoryEntry)`, with two unused bytes after the type. -/
def sizeofDirectoryEntry : ℕ := 12

/-- `sizeof(Directory)`. -/
def sizeofDirectory : ℕ := 4

/-- The bytes of a `Superblock`. -/
def superblockAt (bytes : Memory) : Superblock where
  magic := readLE bytes 0 4
  version := readLE bytes 4 4
  inodeTableOffset := readLE bytes 8 4
  inodeTableSize := readLE bytes 12 4
  dataTableOffset := readLE bytes 16 4

/-- The bytes of an `Inode`. -/
def inodeAt (bytes : Memory) : Inode where
  offset := readLE bytes 0 4
  size := readLE bytes 4 4

/-- The bytes of a `DirectoryEntry`. -/
def directoryEntryAt (bytes : Memory) : DirectoryEntry where
  type := readLE bytes 0 2
  filenameInode := readLE bytes 4 4
  dataInode := readLE bytes 8 4

/-- The fields of `Filesystem`. -/
structure Filesystem where
  /-- `m_block_device`. -/
  device : BlockDevice
  /-- `m_superblock`. -/
  superblock : Superblock

/-- The result of a lookup, `none` where it depends on memory nobody wrote. -/
abbrev Result (β : Type) := ExceptT Error Option β

/-- What the heap has for the name of an entry. -/
inductive Supply where
  /-- No buffer. -/
  | refused
  /-- The buffer, and no room for a string of the same size. -/
  | buffer
  /-- The buffer and the strings that are made of it. -/
  | whole
  deriving DecidableEq

/-- What it has for one name after the other, those without a byte left out:
`new` has no buffer for them. -/
abbrev Supplies := ℕ→Supply

/-- A heap with room for every name. -/
def ample : Supplies := fun _ => .whole

/-- `Filesystem::init` of a file system on the device. -/
def initFilesystem (device : BlockDevice) : Except Error Filesystem :=
  let superblock := superblockAt (BlockDeviceReader.read ⟨device,0⟩ sizeofSuperblock).1
  if superblock.magic≠ramdiskMagic then .error (.withMessage "RamdiskFS: Invalid superblock")
  else .ok ⟨device,superblock⟩

/-- An `int` loop counter as a `size_t`. -/
def intToSize (i : ℕ) : ℕ := if i<2^31 then i else i+(2^64-2^32)

section Lookup

variable (fs : Filesystem) (heap : Supplies)

/-- `Filesystem::read_inode`. -/
def readInode (reader : BlockDeviceReader) (index : ℕ) : Result (Inode×BlockDeviceReader) :=
  if index>fs.superblock.inodeTableSize then throw (.fromCode 1)
  else
    let inodeOffset := (sizeofSuperblock+sizeofInode*index)%2^32
    let (bytes,reader) := (reader.seek inodeOffset).read sizeofInode
    pure (inodeAt bytes,reader)

/-- `m_superblock.data_table_offset + inode.offset`, a sum of two `u32`. -/
def dataOffset (inode : Inode) : ℕ := (fs.superblock.dataTableOffset+inode.offset)%2^32

/-- `Filesystem::read_filename_inode`, and how many names with a byte have been
read. The buffer is never freed. The result of `read_buffer` is not looked at:
where it fails, the name is what the fresh buffer happens to hold. Where a
buffer or a string is refused, the device writes nothing to the null pointer and
the copies of the string are empty. -/
def readFilenameInode (asked : ℕ) (reader : BlockDeviceReader) (index : ℕ) :
    Result (List UInt8×ℕ×BlockDeviceReader) := do
  let (inode,reader) ← readInode fs reader index
  let reader := reader.seek (dataOffset fs inode)
  if inode.size=0 then pure ([],asked,reader)
  else if heap asked≠.whole then pure ([],asked+1,reader)
  else
    match reader.readBuffer inode.size with
    | .ok (filename,reader) => pure ((List.range inode.size).map filename,asked+1,reader)
    | .error _ => ExceptT.mk none

/-- The loop of `find_file_in_directory`, from entry `i` on. -/
def findEntryLoop (directory : Inode) (filename : List UInt8) :
    (remaining i asked : ℕ)→BlockDeviceReader→Result (ℕ×ℕ)
  | 0,_,_,_ => throw (.withMessage "File not found")
  | remaining+1,i,asked,reader => do
    let (bytes,reader) := (reader.seek (u64 (dataOffset fs directory+sizeofDirectory+
      sizeofDirectoryEntry*intToSize i))).read sizeofDirectoryEntry
    let directoryEntry := directoryEntryAt bytes
    let (entryName,asked,reader) ← readFilenameInode fs heap asked reader
      directoryEntry.filenameInode
    if entryName=filename then pure (directoryEntry.dataInode,asked)
    else findEntryLoop directory filename remaining (i+1) asked reader

/-- `Filesystem::find_file_in_directory`. -/
def findFileInDirectory (asked directoryInodeIndex : ℕ) (filename : List UInt8) :
    Result (ℕ×ℕ) := do
  let (directoryInode,reader) ← readInode fs ⟨fs.device,0⟩ directoryInodeIndex
  let (header,reader) := (reader.seek (dataOffset fs directoryInode)).read sizeofDirectory
  findEntryLoop fs heap directoryInode filename (readLE header 0 4) 0 asked reader

/-- Rounds until `max_search_depth`, raised by one in each, has wrapped to zero. -/
def roundsLeft (maxSearchDepth : ℕ) : ℕ :=
  if maxSearchDepth<2^64 then (2^64-maxSearchDepth)%2^64 else 2^64

/-- A round of the search brings the end of the search nearer. -/
theorem roundsLeft_next {maxSearchDepth : ℕ} (h : 0< maxSearchDepth) :
    roundsLeft (u64 (maxSearchDepth+1))<roundsLeft maxSearchDepth := by
  unfold roundsLeft u64
  split_ifs <;> omega

/-- The `while` loop of `find_directory_containing_file`. -/
def searchLoop (pathParts : List (List UInt8))
    (currentSearchDepth inode maxSearchDepth asked : ℕ) : Result (ℕ×ℕ) :=
  if currentSearchDepth< maxSearchDepth then do
    let (inode,asked) ← findFileInDirectory fs heap asked inode
      (pathParts.getD currentSearchDepth [])
    searchLoop pathParts currentSearchDepth inode (u64 (maxSearchDepth+1)) asked
  else pure (inode,asked)
  termination_by roundsLeft maxSearchDepth
  decreasing_by exact roundsLeft_next (Nat.zero_lt_of_lt (by assumption))

/-- The character `/`. -/
def slash : UInt8 := 47

/-- `Filesystem::find_directory_containing_file`. -/
def findDirectoryContainingFile (path : List UInt8) : Result (ℕ×ℕ) :=
  let pathParts := split path slash
  searchLoop fs heap pathParts 0 0 (u64Sub (u64 pathParts.length) 1) 0

/-- `Filesystem::find_file`. -/
def findFile (filename : List UInt8) : Result ℕ := do
  let (directory,asked) ← findDirectoryContainingFile fs heap filename
  let (file,_) ← findFileInDirectory fs heap asked directory filename
  pure file

/-- The fields of `OpenFile`. -/
structure OpenFile where
  /-- `m_inode`. -/
  inode : Inode
  /-- `m_read_offset`. -/
  readOffset : ℕ

/-- `Filesystem::open`. -/
def openFile (filename : List UInt8) : Result OpenFile := do
  let inodeNumber ← findFile fs heap filename
  let (inode,_) ← readInode fs ⟨fs.device,0⟩ inodeNumber
  pure ⟨inode,0⟩

end Lookup

section Outcomes

variable {β γ : Type} {first : Result β} {next : β→Result γ}

/-- After a value the next step decides. -/
theorem run_bind_of_ok {b : β} (h : first.run=some (.ok b)) :
    (first>>=next).run=(next b).run := by
  rw [ExceptT.run_bind,h]
  rfl

/-- Two steps return what the second one returns on the first one's value. -/
theorem run_bind_ok {value : γ} : (first>>=next).run=some (.ok value) ↔
    ∃ b,first.run=some (.ok b) ∧ (next b).run=some (.ok value) := by
  rw [ExceptT.run_bind]
  rcases first.run with _|_|b <;> simp

/-- They end with an error of the first or of the second step. -/
theorem run_bind_error {error : Error} : (first>>=next).run=some (.error error) ↔
    first.run=some (.error error) ∨
      ∃ b,first.run=some (.ok b) ∧ (next b).run=some (.error error) := by
  rw [ExceptT.run_bind]
  rcases first.run with _|_|b <;> simp

/-- They have an outcome when both steps have one. -/
theorem run_bind_ne_none (hfirst : first.run≠none)
    (hnext : ∀ b,first.run=some (.ok b) → (next b).run≠none) : (first>>=next).run≠none := by
  rcases hrun : first.run with _|error|b
  · exact absurd hrun hfirst
  · rw [run_bind_error.mpr (Or.inl hrun)]
    exact Option.some_ne_none _
  · rw [run_bind_of_ok hrun]
    exact hnext b hrun

/-- After a step that fails with no error the next one decides. -/
theorem run_bind_map {δ : Type} {found : Option δ} {value : δ→β}
    (h : first.run=found.map (fun d => .ok (value d))) :
    (first>>=next).run=found.bind (fun d => (next (value d)).run) := by
  rw [ExceptT.run_bind,h]
  cases found with
  | none => rfl
  | some d => rfl

end Outcomes

section Entries

variable (fs : Filesystem)

/-- The inode with this index, as `read_inode` sees it. -/
def inodeWith (index : ℕ) : Inode :=
  inodeAt ((fs.device ((sizeofSuperblock+sizeofInode*index)%2^32) sizeofInode).toOption.getD
    (fun _ => 0))

/-- `entry_count` of a directory. -/
def entryCount (directory : Inode) : ℕ :=
  readLE ((fs.device (dataOffset fs directory) sizeofDirectory).toOption.getD (fun _ => 0)) 0 4

/-- The bytes of entry `i` of a directory, zeros where the device refuses. -/
def directoryEntryOf (directory : Inode) (i : ℕ) : DirectoryEntry :=
  directoryEntryAt ((fs.device (u64 (dataOffset fs directory+sizeofDirectory+
    sizeofDirectoryEntry*intToSize i)) sizeofDirectoryEntry).toOption.getD (fun _ => 0))

/-- The name in an inode, where the device has its bytes. -/
def storedName (inode : Inode) : Option (List UInt8) :=
  (fs.device (dataOffset fs inode) inode.size).toOption.map
    (fun bytes => (List.range inode.size).map bytes)

/-- The name a lookup reads there, `none` where nobody wrote the buffer. -/
def nameRead (heap : Supplies) (asked : ℕ) (inode : Inode) : Option (List UInt8) :=
  if inode.size=0 ∨ heap asked≠.whole then some [] else storedName fs inode

/-- The names with a byte that have been read after one more. -/
def askedAfter (asked : ℕ) (inode : Inode) : ℕ := if inode.size=0 then asked else asked+1

/-- A directory has an entry with this name in this inode, for this inode. -/
structure HasEntry (d : ℕ) (name : Inode) (number : ℕ) : Prop where
  /-- The directory is in an inode. -/
  directory_le : d≤fs.superblock.inodeTableSize
  /-- The entry is one of the directory, its name is in an inode. -/
  entry : ∃ i<entryCount fs (inodeWith fs d),
    (directoryEntryOf fs (inodeWith fs d) i).filenameInode≤fs.superblock.inodeTableSize ∧
    name=inodeWith fs (directoryEntryOf fs (inodeWith fs d) i).filenameInode ∧
    number=(directoryEntryOf fs (inodeWith fs d) i).dataInode

/-- The inodes that entries lead to, from directory inode 0 on. -/
inductive Reached : ℕ→Prop
  /-- The root directory. -/
  | root : Reached 0
  /-- An entry of a directory. -/
  | entry {d number : ℕ} {name : Inode} (hd : Reached d) (he : HasEntry fs d name number) :
    Reached number

/-- The device has the name of every entry of every directory that is reached. -/
def Readable : Prop :=
  ∀ d,Reached fs d → ∀ name number,HasEntry fs d name number → storedName fs name≠none

/-- None of the names has a `/`. -/
def PlainNames : Prop :=
  ∀ d,Reached fs d → ∀ name number,HasEntry fs d name number →
    ∀ bytes,storedName fs name=some bytes → slash∉bytes

variable {fs} {heap : Supplies}

/-- `read_inode` keeps the device of the reader. -/
theorem readInode_run (reader : BlockDeviceReader) (hreader : reader.device=fs.device)
    {index : ℕ} (h : index≤fs.superblock.inodeTableSize) :
    ∃ after : BlockDeviceReader,after.device=fs.device ∧
      (readInode fs reader index).run=some (.ok (inodeWith fs index,after)) := by
  obtain ⟨device,offset⟩ := reader
  obtain rfl : device=fs.device := hreader
  refine ⟨((BlockDeviceReader.seek ⟨fs.device,offset⟩
    ((sizeofSuperblock+sizeofInode*index)%2^32)).read sizeofInode).2,rfl,?_⟩
  rw [readInode,if_neg (by omega)]
  rfl

/-- An inode outside the table is refused. -/
theorem readInode_error (reader : BlockDeviceReader) {index : ℕ}
    (h : fs.superblock.inodeTableSize< index) :
    (readInode fs reader index).run=some (.error (.fromCode 1)) := by
  rw [readInode,if_pos h]
  rfl

/-- What `read_filename_inode` reads, and how many names have been read then. -/
theorem readFilenameInode_run (asked : ℕ) {reader : BlockDeviceReader}
    (hreader : reader.device=fs.device) {index : ℕ} (h : index≤fs.superblock.inodeTableSize) :
    ∃ after : BlockDeviceReader,after.device=fs.device ∧
      (readFilenameInode fs heap asked reader index).run=
        (nameRead fs heap asked (inodeWith fs index)).map
          (fun name => .ok (name,askedAfter asked (inodeWith fs index),after)) := by
  obtain ⟨after,hafter,hrun⟩ := readInode_run reader hreader h
  generalize inodeWith fs index=inode at hrun
  rw [readFilenameInode,run_bind_of_ok hrun]
  dsimp only
  unfold nameRead askedAfter
  by_cases hsize : inode.size=0
  · refine ⟨after.seek (dataOffset fs inode),hafter,?_⟩
    rw [if_pos hsize,if_pos (Or.inl hsize),if_pos hsize]
    rfl
  rw [if_neg hsize,if_neg hsize]
  by_cases hheap : heap asked=.whole
  · rw [if_neg (not_not_intro hheap),if_neg (by tauto)]
    refine ⟨⟨fs.device,u64 (dataOffset fs inode+inode.size)⟩,rfl,?_⟩
    rw [BlockDeviceReader.readBuffer,storedName]
    simp only [BlockDeviceReader.seek,hafter]
    cases fs.device (dataOffset fs inode) inode.size with
    | error error => rfl
    | ok bytes => rfl
  · refine ⟨after.seek (dataOffset fs inode),hafter,?_⟩
    rw [if_pos hheap,if_pos (Or.inr hheap)]
    rfl

/-- The loop does not depend on where the reader stands. -/
theorem findEntryLoop_start (directory : Inode) (filename : List UInt8) (remaining i asked : ℕ)
    {reader : BlockDeviceReader} (hreader : reader.device=fs.device) :
    findEntryLoop fs heap directory filename remaining i asked reader=
      findEntryLoop fs heap directory filename remaining i asked ⟨fs.device,0⟩ := by
  obtain ⟨device,offset⟩ := reader
  obtain rfl : device=fs.device := hreader
  cases remaining with
  | zero => rfl
  | succ remaining => rfl

/-- One round of the loop over the entries. -/
theorem findEntryLoop_succ (directory : Inode) (filename : List UInt8) (remaining asked : ℕ)
    {i : ℕ} (h : (directoryEntryOf fs directory i).filenameInode≤fs.superblock.inodeTableSize) :
    (findEntryLoop fs heap directory filename (remaining+1) i asked ⟨fs.device,0⟩).run=
      (nameRead fs heap asked (inodeWith fs (directoryEntryOf fs directory i).filenameInode)).bind
        (fun name => if name=filename then
          some (.ok ((directoryEntryOf fs directory i).dataInode,
            askedAfter asked (inodeWith fs (directoryEntryOf fs directory i).filenameInode)))
        else (findEntryLoop fs heap directory filename remaining (i+1)
          (askedAfter asked (inodeWith fs (directoryEntryOf fs directory i).filenameInode))
            ⟨fs.device,0⟩).run) := by
  obtain ⟨after,hafter,hrun⟩ := @readFilenameInode_run fs heap asked ⟨fs.device,_⟩ rfl _ h
  rw [findEntryLoop]
  refine (run_bind_map hrun).trans ?_
  congr 1
  funext name
  dsimp only
  rw [findEntryLoop_start directory filename remaining (i+1) _ hafter]
  split_ifs <;> rfl

/-- It fails at an entry whose name is in no inode. -/
theorem findEntryLoop_error (directory : Inode) (filename : List UInt8) (remaining asked : ℕ)
    {i : ℕ} (h : fs.superblock.inodeTableSize<(directoryEntryOf fs directory i).filenameInode) :
    (findEntryLoop fs heap directory filename (remaining+1) i asked ⟨fs.device,0⟩).run=
      some (.error (.fromCode 1)) := by
  rw [findEntryLoop]
  exact run_bind_error.mpr (Or.inl (run_bind_error.mpr (Or.inl (readInode_error _ h))))

/-- A name that is found is the one read for an entry. -/
theorem findEntryLoop_found {directory : Inode} {filename : List UInt8}
    {remaining i asked number later : ℕ}
    (h : (findEntryLoop fs heap directory filename remaining i asked ⟨fs.device,0⟩).run=
      some (.ok (number,later))) :
    ∃ k< i+remaining,(directoryEntryOf fs directory k).filenameInode≤fs.superblock.inodeTableSize ∧
      number=(directoryEntryOf fs directory k).dataInode ∧ ∃ before≥asked,
        nameRead fs heap before (inodeWith fs (directoryEntryOf fs directory k).filenameInode)=
          some filename ∧
        later=askedAfter before (inodeWith fs (directoryEntryOf fs directory k).filenameInode) := by
  induction remaining generalizing i asked with
  | zero => cases h
  | succ remaining ih =>
    by_cases hindex : (directoryEntryOf fs directory i).filenameInode≤fs.superblock.inodeTableSize
    · rw [findEntryLoop_succ directory filename remaining asked hindex] at h
      obtain ⟨name,hname,hrest⟩ := Option.bind_eq_some_iff.mp h
      split_ifs at hrest with hsame
      · subst hsame
        cases hrest
        exact ⟨i,by omega,hindex,rfl,asked,Nat.le_refl _,hname,rfl⟩
      · obtain ⟨k,hk,hinode,hnumber,before,hbefore,hread⟩ := ih hrest
        refine ⟨k,by omega,hinode,hnumber,before,?_,hread⟩
        -- a name without a byte does not count
        rw [askedAfter] at hbefore
        split_ifs at hbefore <;> omega
    · rw [findEntryLoop_error directory filename remaining asked (by omega)] at h
      cases h

/-- Names that the device has are compared, so the loop has an outcome. -/
theorem findEntryLoop_ne_none {directory : Inode} {remaining i : ℕ}
    (hnames : ∀ k< i+remaining,
      (directoryEntryOf fs directory k).filenameInode≤fs.superblock.inodeTableSize →
      storedName fs (inodeWith fs (directoryEntryOf fs directory k).filenameInode)≠none)
    (filename : List UInt8) (asked : ℕ) :
    (findEntryLoop fs heap directory filename remaining i asked ⟨fs.device,0⟩).run≠none := by
  induction remaining generalizing i asked with
  | zero => exact Option.some_ne_none _
  | succ remaining ih =>
    by_cases hindex : (directoryEntryOf fs directory i).filenameInode≤fs.superblock.inodeTableSize
    · obtain ⟨name,hname⟩ : ∃ name,nameRead fs heap asked
          (inodeWith fs (directoryEntryOf fs directory i).filenameInode)=some name := by
        rw [nameRead]
        split_ifs
        · exact ⟨[],rfl⟩
        · exact Option.ne_none_iff_exists'.mp (hnames i (by omega) hindex)
      rw [findEntryLoop_succ directory filename remaining asked hindex,hname,Option.bind_some]
      split_ifs
      · exact Option.some_ne_none _
      · exact ih (fun k hk => hnames k (by omega)) _
    · rw [findEntryLoop_error directory filename remaining asked (by omega)]
      exact Option.some_ne_none _

/-- A heap with room for the names that are left is as good as any other. -/
theorem findEntryLoop_supplied {directory : Inode} (filename : List UInt8) {remaining i asked : ℕ}
    (hheap : ∀ k<remaining,heap (asked+k)=.whole) :
    (findEntryLoop fs heap directory filename remaining i asked ⟨fs.device,0⟩).run=
      (findEntryLoop fs ample directory filename remaining i asked ⟨fs.device,0⟩).run := by
  induction remaining generalizing i asked with
  | zero => rfl
  | succ remaining ih =>
    by_cases hindex : (directoryEntryOf fs directory i).filenameInode≤fs.superblock.inodeTableSize
    · have hfirst : heap asked=.whole := hheap 0 (by omega)
      have hname : ∀ inode,nameRead fs heap asked inode=nameRead fs ample asked inode := by
        intro inode
        rw [nameRead,nameRead,hfirst,ample]
      rw [findEntryLoop_succ directory filename remaining asked hindex,
        findEntryLoop_succ directory filename remaining asked hindex,hname]
      congr 1
      funext name
      congr 1
      refine ih (fun k hk => ?_)
      rw [askedAfter]
      split_ifs
      · exact hheap k (by omega)
      · have hnext := hheap (k+1) (by omega)
        rwa [Nat.add_right_comm,Nat.add_assoc]
    · rw [findEntryLoop_error directory filename remaining asked (by omega),
        findEntryLoop_error directory filename remaining asked (by omega)]

/-- The lookup in a directory is the loop over its entries. -/
theorem findFileInDirectory_run (asked : ℕ) (filename : List UInt8) {d : ℕ}
    (h : d≤fs.superblock.inodeTableSize) :
    (findFileInDirectory fs heap asked d filename).run=
      (findEntryLoop fs heap (inodeWith fs d) filename (entryCount fs (inodeWith fs d)) 0 asked
        ⟨fs.device,0⟩).run := by
  obtain ⟨after,hafter,hrun⟩ := @readInode_run fs ⟨fs.device,0⟩ rfl d h
  rw [findFileInDirectory,run_bind_of_ok hrun]
  obtain ⟨device,offset⟩ := after
  obtain rfl : device=fs.device := hafter
  exact congrArg ExceptT.run (findEntryLoop_start _ filename _ 0 asked rfl)

/-- There is nothing in a directory that is in no inode. -/
theorem findFileInDirectory_error (asked : ℕ) (filename : List UInt8) {d : ℕ}
    (h : fs.superblock.inodeTableSize<d) :
    (findFileInDirectory fs heap asked d filename).run=some (.error (.fromCode 1)) :=
  run_bind_error.mpr (Or.inl (readInode_error _ h))

/-- What is found in a directory is what one of its entries leads to. -/
theorem findFileInDirectory_found {asked d number later : ℕ} {filename : List UInt8}
    (h : (findFileInDirectory fs heap asked d filename).run=some (.ok (number,later))) :
    ∃ name,HasEntry fs d name number ∧ ∃ before≥asked,
      nameRead fs heap before name=some filename ∧ later=askedAfter before name := by
  by_cases hd : d≤fs.superblock.inodeTableSize
  · rw [findFileInDirectory_run asked filename hd] at h
    obtain ⟨k,hk,hinode,hnumber,hread⟩ := findEntryLoop_found h
    rw [Nat.zero_add] at hk
    exact ⟨_,⟨hd,k,hk,hinode,rfl,hnumber⟩,hread⟩
  · rw [findFileInDirectory_error asked filename (by omega)] at h
    cases h

/-- A lookup in a directory that is reached has an outcome. -/
theorem Readable.findFileInDirectory_ne_none (hreadable : Readable fs) {d : ℕ}
    (hd : Reached fs d) (asked : ℕ) (filename : List UInt8) :
    (findFileInDirectory fs heap asked d filename).run≠none := by
  by_cases hindex : d≤fs.superblock.inodeTableSize
  · rw [findFileInDirectory_run asked filename hindex]
    refine findEntryLoop_ne_none (fun k hk hinode => ?_) filename asked
    rw [Nat.zero_add] at hk
    exact hreadable d hd _ _ ⟨hindex,k,hk,hinode,rfl,rfl⟩
  · rw [findFileInDirectory_error asked filename (by omega)]
    exact Option.some_ne_none _

/-- A name with a byte that is found has got its buffer. -/
theorem served_of_read {asked before : ℕ} {name : Inode} {filename : List UInt8}
    (hbefore : asked≤before) (hread : nameRead fs heap before name=some filename)
    (hname : filename≠[]) :
    Nat.count (fun k => heap k≠.refused) asked<
      Nat.count (fun k => heap k≠.refused) (askedAfter before name) := by
  rw [nameRead] at hread
  split_ifs at hread with hempty
  · exact absurd (Option.some.inj hread).symm hname
  · rw [not_or,not_not] at hempty
    have hserved : heap before≠.refused := by simp [hempty.2]
    rw [askedAfter,if_neg hempty.1,Nat.count_succ,if_pos hserved]
    exact Nat.lt_succ_of_le (Nat.count_monotone _ hbefore)

/-- A name in a directory without names with a `/` has none. -/
theorem PlainNames.slash_notMem (hplain : PlainNames fs) {d number before : ℕ} {name : Inode}
    {filename : List UInt8} (hd : Reached fs d) (he : HasEntry fs d name number)
    (hread : nameRead fs heap before name=some filename) : slash∉filename := by
  rw [nameRead] at hread
  split_ifs at hread
  · rw [← Option.some.inj hread]
    exact List.not_mem_nil
  · exact hplain d hd name number he filename hread

end Entries

section Walks

variable (fs : Filesystem) (heap : Supplies)

/-- The lookup of one name after the other, from a directory on, and how many
names have been read. -/
def walk (names : List (List UInt8)) (place : ℕ×ℕ) : Result (ℕ×ℕ) :=
  names.foldlM (fun place name => findFileInDirectory fs heap place.2 place.1 name) place

/-- The inode reached from directory inode 0 by looking up one name after the
other. -/
def resolve (names : List (List UInt8)) : Result Inode := do
  let (number,_) ← walk fs heap names (0,0)
  let (inode,_) ← readInode fs ⟨fs.device,0⟩ number
  pure inode

/-- The text of a path: the components with a `/` between them. -/
def pathOf (components : List (List UInt8)) : List UInt8 := [slash].intercalate components

/-- The names the code looks up instead of the components. -/
def detour (components : List (List UInt8)) : List (List UInt8) :=
  List.replicate (roundsLeft (components.length-1)) (components.getD 0 [])++[pathOf components]

/-- The search is a walk that looks up the same name in every round. -/
theorem searchLoop_eq (pathParts : List (List UInt8)) {inode maxSearchDepth asked : ℕ}
    (h : maxSearchDepth<2^64) : searchLoop fs heap pathParts 0 inode maxSearchDepth asked=
      walk fs heap (List.replicate (roundsLeft maxSearchDepth) (pathParts.getD 0 []))
        (inode,asked) := by
  induction hrounds : roundsLeft maxSearchDepth generalizing inode maxSearchDepth asked with
  | zero =>
    have hzero : maxSearchDepth=0 := by
      rw [roundsLeft,if_pos h] at hrounds
      omega
    rw [searchLoop,if_neg (by omega)]
    rfl
  | succ rounds ih =>
    rw [roundsLeft,if_pos h] at hrounds
    have hnext : roundsLeft (u64 (maxSearchDepth+1))=rounds := by
      rw [roundsLeft,if_pos (u64_lt _),u64]
      omega
    rw [searchLoop,if_pos (by omega),List.replicate_succ,walk,List.foldlM_cons]
    congr 1
    funext place
    exact ih (u64_lt _) hnext

/-- A path of components: there is one, none has a `/`, and the text is a
`String`. -/
structure Path (components : List (List UInt8)) : Prop where
  /-- There is a component. -/
  nonempty : components≠[]
  /-- None has a `/`. -/
  plain : ∀ component∈components,slash∉component
  /-- The text has a `size_t` as its length. -/
  length_lt : (pathOf components).length<2^64

/-- The text is at least as long as the gaps between the components. -/
theorem length_le_pathOf (components : List (List UInt8)) :
    components.length≤(pathOf components).length+1 := by
  induction components with
  | nil => exact Nat.zero_le _
  | cons component rest ih =>
    cases rest with
    | nil => simp
    | cons second rest =>
      unfold pathOf at ih ⊢
      rw [List.intercalate_cons_cons]
      simp only [List.length_cons,List.length_append,List.length_nil] at ih ⊢
      omega

/-- The file is looked up along the detour. -/
theorem openFile_eq {components : List (List UInt8)} (hp : Path components) :
    openFile fs heap (pathOf components)=
      (fun inode => OpenFile.mk inode 0)<$>resolve fs heap (detour components) := by
  have hlength := length_le_pathOf components
  have hlt := hp.length_lt
  have hpos := List.length_pos_of_ne_nil hp.nonempty
  have hmax : u64Sub (u64 components.length) 1=components.length-1 := by
    unfold u64Sub u64
    omega
  have hsplit : split (pathOf components) slash=components :=
    split_intercalate hp.nonempty hp.plain
  rw [openFile,findFile,findDirectoryContainingFile,hsplit,hmax,
    searchLoop_eq fs heap components (by omega),resolve,detour]
  simp only [walk,List.foldlM_append,List.foldlM_cons,List.foldlM_nil,bind_pure,bind_assoc,
    map_eq_pure_bind,pure_bind]

/-- A path of one component is looked up as it is. -/
theorem detour_singleton (component : List UInt8) : detour [component]=[component] := by
  have hrounds : roundsLeft 0=0 := by decide
  rw [detour,List.length_singleton,Nat.sub_self,hrounds,List.replicate_zero,List.nil_append,pathOf,
    List.intercalate_singleton]

/-- The names lead to the inode, when each of them is read. -/
def LeadsTo (names : List (List UInt8)) (inode : Inode) : Prop :=
  (resolve fs ample names).run=some (.ok inode)

/-- A lookup of the names, or the inode it comes to, fails. -/
def LeadsNowhere (names : List (List UInt8)) : Prop :=
  ∃ error,(resolve fs ample names).run=some (.error error)

/-- `open` returns the inode that the components lead to and an error where they
lead nowhere. -/
structure OpensAlong (components : List (List UInt8)) : Prop where
  /-- The inode. -/
  inode : ∀ inode,LeadsTo fs components inode →
    (openFile fs heap (pathOf components)).run=some (.ok ⟨inode,0⟩)
  /-- The error. -/
  error : LeadsNowhere fs components →
    ∃ error,(openFile fs heap (pathOf components)).run=some (.error error)

/-- The buffers of the names and the text of the path are in one address
space. -/
def Fits (components : List (List UInt8)) : Prop :=
  ∀ asked,Nat.count (fun k => heap k≠.refused) asked+(pathOf components).length<2^64

/-- There is room for every name in the root directory. -/
def RootSupplied : Prop := ∀ k<entryCount fs (inodeWith fs 0),heap k=.whole

variable {fs heap}

/-- What a walk of two or more names does first. -/
theorem walk_cons (name : List UInt8) (names : List (List UInt8)) (place : ℕ×ℕ) :
    walk fs heap (name::names) place=
      findFileInDirectory fs heap place.2 place.1 name>>=walk fs heap names :=
  List.foldlM_cons

/-- A walk through the tables of a readable image has an outcome. -/
theorem Readable.walk_ne_none (hreadable : Readable fs) (names : List (List UInt8))
    {place : ℕ×ℕ} (hd : Reached fs place.1) : (walk fs heap names place).run≠none := by
  induction names generalizing place with
  | nil => exact Option.some_ne_none _
  | cons name names ih =>
    rw [walk_cons]
    refine run_bind_ne_none (hreadable.findFileInDirectory_ne_none hd _ name) ?_
    intro next hnext
    obtain ⟨entry,he,-⟩ := findFileInDirectory_found hnext
    exact ih (hd.entry he)

/-- It ends at an inode that entries lead to. -/
theorem reached_of_walk {names : List (List UInt8)} {place last : ℕ×ℕ}
    (hd : Reached fs place.1) (h : (walk fs heap names place).run=some (.ok last)) :
    Reached fs last.1 := by
  induction names generalizing place with
  | nil =>
    cases h
    exact hd
  | cons name names ih =>
    rw [walk_cons] at h
    obtain ⟨next,hnext,hrest⟩ := run_bind_ok.mp h
    obtain ⟨entry,he,-⟩ := findFileInDirectory_found hnext
    exact ih (hd.entry he) hrest

/-- Each round of a search for a name with a byte takes a buffer. -/
theorem served_of_walk {name : List UInt8} (hname : name≠[]) {rounds : ℕ} {place last : ℕ×ℕ}
    (h : (walk fs heap (List.replicate rounds name) place).run=some (.ok last)) :
    rounds≤Nat.count (fun k => heap k≠.refused) last.2 := by
  suffices hmore : Nat.count (fun k => heap k≠.refused) place.2+rounds≤
      Nat.count (fun k => heap k≠.refused) last.2 by omega
  induction rounds generalizing place with
  | zero =>
    cases h
    exact Nat.le_refl _
  | succ rounds ih =>
    rw [List.replicate_succ,walk_cons] at h
    obtain ⟨next,hnext,hrest⟩ := run_bind_ok.mp h
    obtain ⟨entry,-,before,hbefore,hread,hlater⟩ := findFileInDirectory_found hnext
    have hserved := served_of_read hbefore hread hname
    rw [← hlater] at hserved
    have hafter := ih hrest
    omega

/-- The text of two or more components has a `/`. -/
theorem slash_mem_pathOf {components : List (List UInt8)} (h : 1<components.length) :
    slash∈pathOf components := by
  rcases components with _|⟨first,_|⟨second,rest⟩⟩
  · simp at h
  · simp at h
  · rw [pathOf,List.intercalate_cons_cons]
    simp

/-- The detour of two or more components leads to no inode: the heap does not
last for its rounds, or the text at its end is no name. -/
theorem not_found_on_detour {components : List (List UInt8)} (hlength : 1<components.length)
    (hfits : Fits heap components) (hfirst : components.getD 0 []≠[] ∨ PlainNames fs)
    (inode : Inode) : (resolve fs heap (detour components)).run≠some (.ok inode) := by
  intro h
  obtain ⟨last,hwalk,-⟩ := run_bind_ok.mp h
  rw [walk,detour,List.foldlM_append] at hwalk
  obtain ⟨place,hrounds,hend⟩ := run_bind_ok.mp hwalk
  rcases hfirst with hname|hplain
  · have hserved := served_of_walk hname hrounds
    have hroom := hfits place.2
    have htext := length_le_pathOf components
    rw [roundsLeft,if_pos (by omega)] at hserved
    omega
  · rw [List.foldlM_cons] at hend
    obtain ⟨found,hfound,-⟩ := run_bind_ok.mp hend
    obtain ⟨entry,he,before,-,hread,-⟩ := findFileInDirectory_found hfound
    exact hplain.slash_notMem (reached_of_walk Reached.root hrounds) he hread
      (slash_mem_pathOf hlength)

/-- `open` comes to the inode the detour leads to. -/
theorem openFile_ok_iff {components : List (List UInt8)} (hp : Path components) {inode : Inode} :
    (openFile fs heap (pathOf components)).run=some (.ok ⟨inode,0⟩) ↔
      (resolve fs heap (detour components)).run=some (.ok inode) := by
  rw [openFile_eq fs heap hp,ExceptT.run_map]
  rcases (resolve fs heap (detour components)).run with _|_|found <;> simp [Except.map]

/-- `open` fails where the detour leads nowhere. -/
theorem openFile_error_iff {components : List (List UInt8)} (hp : Path components) :
    (∃ error,(openFile fs heap (pathOf components)).run=some (.error error)) ↔
      ∃ error,(resolve fs heap (detour components)).run=some (.error error) := by
  rw [openFile_eq fs heap hp,ExceptT.run_map]
  rcases (resolve fs heap (detour components)).run with _|_|found <;> simp [Except.map]

/-- In a readable image every list of names leads to an inode or nowhere. -/
theorem Readable.leads (hreadable : Readable fs) (names : List (List UInt8)) :
    (∃ inode,(resolve fs heap names).run=some (.ok inode)) ∨
      ∃ error,(resolve fs heap names).run=some (.error error) := by
  have hrun : (resolve fs heap names).run≠none := by
    refine run_bind_ne_none (hreadable.walk_ne_none names Reached.root) ?_
    rintro ⟨number,asked⟩ -
    dsimp only
    unfold readInode
    split_ifs <;> simp
  rcases hresolve : (resolve fs heap names).run with _|error|inode
  · exact absurd hresolve hrun
  · exact Or.inr ⟨error,rfl⟩
  · exact Or.inl ⟨inode,rfl⟩

/-- With room for the names of the root directory one name leads as it should. -/
theorem RootSupplied.resolve_singleton (hroot : RootSupplied fs heap) (component : List UInt8) :
    (resolve fs heap [component]).run=(resolve fs ample [component]).run := by
  have hfind : (findFileInDirectory fs heap 0 0 component).run=
      (findFileInDirectory fs ample 0 0 component).run := by
    rw [findFileInDirectory_run 0 component (Nat.zero_le _),
      findFileInDirectory_run 0 component (Nat.zero_le _)]
    refine findEntryLoop_supplied component (fun k hk => ?_)
    rw [Nat.zero_add]
    exact hroot k hk
  simp only [resolve,walk_cons,ExceptT.run_bind,hfind]
  rfl

variable (fs heap) in
/-- The paths that are opened along their components: those of one component,
when there is room for the names of the root directory, and those that lead to
no inode, unless the first component is empty and names have a `/`. -/
def Follows (components : List (List UInt8)) : Prop :=
  components.length=1 ∧ RootSupplied fs heap ∨
    1<components.length ∧ (components.getD 0 []≠[] ∨ PlainNames fs) ∧
      ∀ inode,¬LeadsTo fs components inode

/-- A path of one component is opened as it should. -/
theorem opensAlong_of_one {components : List (List UInt8)} (hp : Path components)
    (hlength : components.length=1) (hroot : RootSupplied fs heap) :
    OpensAlong fs heap components := by
  obtain ⟨component,rfl⟩ := List.length_eq_one_iff.mp hlength
  have hsame := hroot.resolve_singleton component
  constructor
  · intro inode hinode
    rw [openFile_ok_iff hp,detour_singleton,hsame]
    exact hinode
  · intro herror
    rw [openFile_error_iff hp,detour_singleton,hsame]
    exact herror

/-- A longer one is opened as it should when it leads to no inode. -/
theorem opensAlong_iff_not_leadsTo {components : List (List UInt8)} (hp : Path components)
    (hreadable : Readable fs) (hfits : Fits heap components) (hlength : 1<components.length)
    (hfirst : components.getD 0 []≠[] ∨ PlainNames fs) :
    OpensAlong fs heap components ↔ ∀ inode,¬LeadsTo fs components inode := by
  have hdetour := not_found_on_detour hlength hfits hfirst
  constructor
  · exact fun h inode hinode => hdetour inode ((openFile_ok_iff hp).mp (h.inode inode hinode))
  · intro hnowhere
    refine ⟨fun inode hinode => absurd hinode (hnowhere inode),fun _ => ?_⟩
    rw [openFile_error_iff hp]
    rcases hreadable.leads (detour components) with ⟨inode,hinode⟩|herror
    · exact absurd hinode (hdetour inode)
    · exact herror

end Walks

section Sample

variable (fs : Filesystem)

/-- Every inode that `read_inode` returns has its bytes on the device. -/
def InodesOnDevice : Prop :=
  ∀ index≤fs.superblock.inodeTableSize,
    (fs.device (dataOffset fs (inodeWith fs index)) (inodeWith fs index).size).isOk=true

variable {fs}

/-- An image with its inodes on the device is readable. -/
theorem InodesOnDevice.readable (hinodes : InodesOnDevice fs) : Readable fs := by
  intro d _ name number he
  obtain ⟨i,-,hindex,rfl,-⟩ := he.entry
  have hok := hinodes _ hindex
  rw [storedName]
  cases hread : fs.device _ _ with
  | error error =>
    rw [hread] at hok
    cases hok
  | ok bytes => exact Option.some_ne_none _

/-- The words of an image with the file `b` in the directory `a`: superblock,
five inodes, the root directory, the name `a`, the directory `a`, the name `b`
and the file. -/
def sampleWords : List ℕ :=
  [0x017dce23,1,20,5,60,0,16,16,1,20,16,36,1,40,4,1,2,1,2,97,1,1,3,4,98,0x07070707]

/-- The device with these words. -/
def sampleDevice : MemoryBlockDevice where
  image := fun i => UInt8.ofNat (sampleWords.getD (i/4) 0/256^(i%4))
  size := 104

/-- The file system on it. -/
def sampleFilesystem : Filesystem := ⟨sampleDevice.read,⟨0x017dce23,1,20,5,60⟩⟩

/-- A heap with room for sixteen names. -/
def sampleHeap : Supplies := fun k => if k<16 then .whole else .refused

/-- It is what `init` makes of the device. -/
theorem init_sampleDevice : initFilesystem sampleDevice.read=.ok sampleFilesystem := by
  have hsuperblock : superblockAt (BlockDeviceReader.read ⟨sampleDevice.read,0⟩
      sizeofSuperblock).1=⟨0x017dce23,1,20,5,60⟩ := by decide +kernel
  rw [initFilesystem,hsuperblock]
  rfl

/-- All its inodes are on the device. -/
theorem inodesOnDevice_sample : InodesOnDevice sampleFilesystem := by
  unfold InodesOnDevice
  decide +kernel

/-- The sixteen names fit beside a short path. -/
theorem sampleHeap_fits {components : List (List UInt8)} (h : (pathOf components).length<16) :
    Fits sampleHeap components := by
  intro asked
  have hcount : Nat.count (fun k => sampleHeap k≠.refused) asked≤ min asked 16 := by
    induction asked with
    | zero => exact Nat.le_refl _
    | succ asked ih =>
      by_cases hroom : asked<16
      · have hgiven : sampleHeap asked≠.refused := by simp [sampleHeap,hroom]
        rw [Nat.count_succ,if_pos hgiven]
        omega
      · have hgone : ¬sampleHeap asked≠.refused := by simp [sampleHeap,hroom]
        rw [Nat.count_succ,if_neg hgone]
        omega
  omega

/-- A path with a directory in it. -/
theorem path_sample : Path [[97],[98]] := ⟨by decide,by decide,by decide⟩

/-- The components lead to the file. -/
theorem sample_leadsTo : LeadsTo sampleFilesystem [[97],[98]] ⟨40,4⟩ := by
  unfold LeadsTo
  decide +kernel

/-- The detour finds `a` in the root directory, but not again in `a`. -/
theorem sample_detour : (resolve sampleFilesystem sampleHeap (detour [[97],[98]])).run=
    some (.error (.withMessage "File not found")) := by
  have hroot : (findFileInDirectory sampleFilesystem sampleHeap 0 0 [97]).run=
      some (.ok (2,1)) := by decide +kernel
  have hbelow : (findFileInDirectory sampleFilesystem sampleHeap 1 2 [97]).run=
      some (.error (.withMessage "File not found")) := by decide +kernel
  have hrounds : roundsLeft 1=2^64-3+1+1 := by decide
  have hlength : ([[97],[98]] : List (List UInt8)).length-1=1 := rfl
  have hfirst : ([[97],[98]] : List (List UInt8)).getD 0 []=[97] := rfl
  refine run_bind_error.mpr (Or.inl ?_)
  rw [detour,hlength,hfirst,hrounds,List.replicate_succ,List.replicate_succ,List.cons_append,
    List.cons_append,walk_cons,run_bind_of_ok hroot,walk_cons]
  exact run_bind_error.mpr (Or.inl hbelow)

end Sample

end WorkbenchOS.RamdiskFS
