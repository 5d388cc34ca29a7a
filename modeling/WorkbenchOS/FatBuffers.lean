import WorkbenchOS.FatCycles
import WorkbenchOS.FatLoops

/-!
# What the FAT32 driver touches in its buffers

`mount` takes any number of bytes for a sector. As the length of a transfer that
number goes to buffers of two sizes: that of a cluster is allocated with it, that
of `read_fat` has 512 bytes. A number that is no multiple of 512 is refused by
the device and zero by the heap, so what is left is the larger multiples, as
soon as a sector of the FAT is delivered.
-/

namespace WorkbenchOS.FatBuffers

open ByteMemory LibStd Fat32 FatFiles FatSectors FatLoops

section Definitions

/-- What the driver does with a number from the boot sector. -/
inductive Touch where
  /-- `read_fat` divides by it. -/
  | modulo (divisor : ℕ)
  /-- `read_fat` got so many bytes in `sector_buffer` and reads a word of it. -/
  | fatRead (bytes offset : ℕ)
  /-- `read_cluster` got so many bytes in a buffer with this room. -/
  | clusterFill (bytes room : ℕ)
  /-- Bytes of that buffer are read. -/
  | clusterLook (offset count room : ℕ)
  deriving DecidableEq

/-- No division by zero, and no byte behind a buffer. -/
def Touch.Safe : Touch→Prop
  | .modulo divisor => divisor≠0
  | .fatRead bytes offset => bytes≤ sectorBufferSize ∧ offset+4≤ sectorBufferSize
  | .clusterFill bytes room => bytes≤room
  | .clusterLook offset count room => offset+count≤room

/-- `read_fat`. -/
def readFatTouches (volume : Volume) (cluster : ℕ) : List Touch :=
  .modulo volume.bytesPerSec::
    match volume.dev.read (cluster*4) volume.bytesPerSec (fun _ => 0) with
    | .error _ => []
    | .ok _ => [.fatRead volume.bytesPerSec (cluster*4%volume.bytesPerSec)]

/-- The `for` loop of `find_in_directory`. -/
def scanTouches (room : ℕ) (buffer : Memory) (want : List UInt8) : (remaining i : ℕ)→List Touch
  | 0,_ => []
  | remaining+1,i =>
    let entry := entryAt buffer (sizeofDirEntShort*i)
    .clusterLook (sizeofDirEntShort*i) sizeofDirEntShort room::
      (if entry.first=0 then []
      else if entry.isSkipped then scanTouches room buffer want remaining (i+1)
      else if entry.name=want then []
      else scanTouches room buffer want remaining (i+1))

/-- The `while` loop of `find_in_directory`. -/
def findTouches (volume : Volume) (want : List UInt8) : (fuel cl : ℕ)→Memory→List Touch
  | 0,_,_ => []
  | fuel+1,cl,buffer =>
    if isEoc cl ∨ isFree cl then []
    else
      match readCluster volume cl buffer with
      | .error _ => []
      | .ok filled =>
        .clusterFill volume.bytesPerSec (bytesPerCluster volume)::
          (scanTouches (bytesPerCluster volume) filled want (entsPerCluster volume) 0++
            match scanEntries filled want (entsPerCluster volume) 0 with
            | .found _ => []
            | .ended => []
            | .more => readFatTouches volume cl++
              match readFat volume cl with
              | .error _ => []
              | .ok next => findTouches volume want fuel next filled)

/-- `find_in_directory`, up to a number of rounds. -/
def lookupTouches (volume : Volume) (heap : Except Error Memory) (dir : ℕ) (want : List UInt8)
    (rounds : ℕ) : List Touch :=
  match heap with
  | .error _ => []
  | .ok clusterBuffer => findTouches volume want rounds dir clusterBuffer

/-- The component loop of `walk_path`. -/
def walkTouches (volume : Volume) (heap : ℕ→Except Error Memory) (rounds : ℕ) :
    (fuel : ℕ)→(path : List UInt8)→(curDir asked : ℕ)→List Touch
  | 0,_,_,_ => []
  | fuel+1,path,curDir,asked =>
    let segment := path.takeWhile (fun c => !isSeparator c)
    let behind := path.dropWhile (fun c => !isSeparator c)
    if 256≤ segment.length then []
    else
      lookupTouches volume (heap asked) curDir (to8dot3Upper segment) rounds++
        match findInDirectory volume (heap asked) curDir (to8dot3Upper segment) with
        | some (.ok entry) =>
          if behind=[] then []
          else if entry.isDirectory then
            let rest := behind.dropWhile isSeparator
            if rest=[] then []
            else walkTouches volume heap rounds fuel rest entry.firstCluster (asked+1)
          else []
        | _ => []

/-- `walk_path`. -/
def pathTouches (volume : Volume) (heap : ℕ→Except Error Memory) (rounds : ℕ)
    (path : List UInt8) : List Touch :=
  if path=[] then []
  else
    let rest := path.dropWhile isSeparator
    if rest=[] then [] else walkTouches volume heap rounds rest.length rest volume.rootCluster 0

/-- The `while` loop of `read_file`. -/
def copyTouches (volume : Volume) : (fuel toRead cl : ℕ)→Memory→List Touch
  | 0,_,_,_ => []
  | fuel+1,toRead,cl,buffer =>
    if toRead=0 ∨ isEoc cl ∨ isFree cl then []
    else
      match readCluster volume cl buffer with
      | .error _ => []
      | .ok filled =>
        let n := if toRead<bytesPerCluster volume then toRead else bytesPerCluster volume
        [.clusterFill volume.bytesPerSec (bytesPerCluster volume),
          .clusterLook 0 n (bytesPerCluster volume)]++readFatTouches volume cl++
            match readFat volume cl with
            | .error _ => []
            | .ok next => copyTouches volume fuel (toRead-n) next filled

/-- What a mounted volume is asked for. -/
inductive Call where
  /-- `get_file_size`. -/
  | getFileSize
  /-- `read_file`. -/
  | readFile (maxBytes : ℕ)

/-- A call on a path, every lookup up to a number of rounds. -/
def callTouches (volume : Volume) (heap : ℕ→Except Error Memory) (rounds : ℕ) (path : List UInt8) :
    Call→List Touch
  | .getFileSize => pathTouches volume heap rounds path
  | .readFile maxBytes => pathTouches volume heap rounds path++
    match walkPath volume heap path with
    | some (.ok (entry,asked)) =>
      if entry.isDirectory then []
      else if entry.fileSize=0 then []
      else
        let toRead := if maxBytes<entry.fileSize then maxBytes else entry.fileSize
        match heap asked with
        | .error _ => []
        | .ok clusterBuffer => copyTouches volume (toRead+1) toRead entry.firstCluster clusterBuffer
    | _ => []

/-- The heap hands out no empty buffer. -/
def Refuses (volume : Volume) (heap : ℕ→Except Error Memory) : Prop :=
  ∀ asked buffer, heap asked=.ok buffer → bytesPerCluster volume≠0

/-- The sectors are several of the device's. -/
def Oversized (volume : Volume) : Prop :=
  sectorBufferSize<volume.bytesPerSec ∧ volume.bytesPerSec%512=0

/-- The calls come to read the root directory. -/
def SearchesRoot (volume : Volume) : Prop :=
  volume.secPerClus≠0 ∧ ¬(isEoc volume.rootCluster=true ∨ isFree volume.rootCluster=true)

/-- The volume on another device. -/
def onDevice (volume : Volume) (device : BlockDevice) : Volume := {volume with dev := device}

/-- The device has the boot sector of the volume. -/
structure SameBoot (volume : Volume) (device : BlockDevice) : Prop where
  /-- The boot sector is there. -/
  on_device : volume.partLba<device.sectors
  /-- It has the same bytes. -/
  same : ∀ k<512, device.image (volume.partLba*512+k)=volume.dev.image (volume.partLba*512+k)

/-- First sector of the root directory. -/
def rootLba (volume : Volume) : ℕ :=
  u64 (volume.dataBeginLba+(volume.rootCluster+2^32-2)%2^32*volume.secPerClus)

/-- What is read of the root directory can be on a device, and the boot sector
is not part of it. -/
structure RootApart (volume : Volume) : Prop where
  /-- The last sector number is a 64-bit value. -/
  on_device : rootLba volume+volume.bytesPerSec/512<2^64
  /-- The boot sector is before or behind. -/
  apart : volume.partLba<rootLba volume ∨ rootLba volume+volume.bytesPerSec/512≤volume.partLba

end Definitions

section Soundness

/-- What is true of every touch, whatever the sector size. -/
def Touch.Sound (volume : Volume) : Touch→Prop
  | .modulo divisor => divisor≠0
  | .fatRead bytes offset => bytes=volume.bytesPerSec ∧ bytes≠0 ∧ bytes%512=0 ∧ offset<bytes ∧
      offset%4=0
  | .clusterFill bytes room => bytes≤room
  | .clusterLook offset count room => offset+count≤room

variable {volume : Volume} {heap : ℕ→Except Error Memory} {rounds : ℕ}

/-- The device delivers a number of its sectors only. -/
theorem read_size {device : BlockDevice} {lba size : ℕ} {buffer filled : Memory}
    (h : device.read lba size buffer=.ok filled) : size≠0 ∧ size%512=0 := by
  rw [BlockDevice.read] at h
  by_cases hsize : size=0 ∨ size%512≠0
  · rw [if_pos hsize] at h
    cases h
  · omega

theorem readFatTouches_sound (hbytes : bytesPerCluster volume≠0) (cluster : ℕ) :
    ∀ touch∈readFatTouches volume cluster,touch.Sound volume := by
  have hne : volume.bytesPerSec≠0 := fun h => hbytes (by rw [bytesPerCluster,h,Nat.mul_zero])
  refine List.forall_mem_cons.mpr ⟨hne,?_⟩
  cases hread : volume.dev.read (cluster*4) volume.bytesPerSec (fun _ => 0) with
  | error error => exact List.forall_mem_nil _
  | ok filled =>
    have hsize := read_size hread
    have hfour : 4∣volume.bytesPerSec := (show 4∣512 by decide).trans (Nat.dvd_of_mod_eq_zero hsize.2)
    have hoffset : cluster*4%volume.bytesPerSec%4=0 := by
      rw [Nat.mod_mod_of_dvd _ hfour,Nat.mul_mod_left]
    exact List.forall_mem_singleton.mpr
      ⟨rfl,hne,hsize.2,Nat.mod_lt _ (Nat.pos_of_ne_zero hne),hoffset⟩

theorem scanTouches_sound {room remaining i : ℕ} (buffer : Memory) (want : List UInt8)
    (hroom : sizeofDirEntShort*(i+remaining)≤room) :
    ∀ touch∈scanTouches room buffer want remaining i,touch.Sound volume := by
  induction remaining generalizing i with
  | zero => exact List.forall_mem_nil _
  | succ remaining ih =>
    have hrest : ∀ touch∈scanTouches room buffer want remaining (i+1),touch.Sound volume :=
      ih (by rwa [Nat.add_assoc,Nat.add_comm 1])
    have hhere : sizeofDirEntShort*i+sizeofDirEntShort≤room := by
      rw [Nat.mul_add,Nat.mul_add] at hroom
      omega
    refine List.forall_mem_cons.mpr ⟨hhere,?_⟩
    split_ifs
    · exact List.forall_mem_nil _
    · exact hrest
    · exact List.forall_mem_nil _
    · exact hrest

/-- The entries of a cluster are in its buffer. -/
theorem entsPerCluster_le (volume : Volume) :
    sizeofDirEntShort*(0+entsPerCluster volume)≤bytesPerCluster volume := by
  rw [Nat.zero_add]
  exact Nat.mul_div_le _ _

/-- A sector is no longer than a cluster. -/
theorem bytesPerSec_le (hbytes : bytesPerCluster volume≠0) :
    volume.bytesPerSec≤bytesPerCluster volume :=
  Nat.le_mul_of_pos_left _ (Nat.pos_of_ne_zero (fun h => hbytes (by
    rw [bytesPerCluster,h,Nat.zero_mul])))

theorem findTouches_sound (hbytes : bytesPerCluster volume≠0) (want : List UInt8) (fuel cl : ℕ)
    (buffer : Memory) : ∀ touch∈findTouches volume want fuel cl buffer,touch.Sound volume := by
  induction fuel generalizing cl buffer with
  | zero => exact List.forall_mem_nil _
  | succ fuel ih =>
    rw [findTouches]
    split
    · exact List.forall_mem_nil _
    · split
      · exact List.forall_mem_nil _
      · next filled hread =>
        refine List.forall_mem_cons.mpr ⟨bytesPerSec_le hbytes,List.forall_mem_append.mpr
          ⟨scanTouches_sound filled want (entsPerCluster_le volume),?_⟩⟩
        split
        · exact List.forall_mem_nil _
        · exact List.forall_mem_nil _
        · refine List.forall_mem_append.mpr ⟨readFatTouches_sound hbytes cl,?_⟩
          split
          · exact List.forall_mem_nil _
          · exact ih _ _

theorem lookupTouches_sound (hheap : Refuses volume heap) (asked dir : ℕ) (want : List UInt8) :
    ∀ touch∈lookupTouches volume (heap asked) dir want rounds,touch.Sound volume := by
  unfold lookupTouches
  cases hbuffer : heap asked with
  | error error => exact List.forall_mem_nil _
  | ok buffer => exact findTouches_sound (hheap asked buffer hbuffer) want rounds dir buffer

theorem walkTouches_sound (hheap : Refuses volume heap) (fuel : ℕ) (path : List UInt8)
    (dir asked : ℕ) : ∀ touch∈walkTouches volume heap rounds fuel path dir asked,
      touch.Sound volume := by
  induction fuel generalizing path dir asked with
  | zero => exact List.forall_mem_nil _
  | succ fuel ih =>
    rw [walkTouches]
    dsimp only
    split
    · exact List.forall_mem_nil _
    · refine List.forall_mem_append.mpr ⟨lookupTouches_sound hheap asked dir _,?_⟩
      split
      · split_ifs
        · exact List.forall_mem_nil _
        · exact List.forall_mem_nil _
        · exact ih _ _ _
        · exact List.forall_mem_nil _
      · exact List.forall_mem_nil _

theorem pathTouches_sound (hheap : Refuses volume heap) (path : List UInt8) :
    ∀ touch∈pathTouches volume heap rounds path,touch.Sound volume := by
  unfold pathTouches
  dsimp only
  split_ifs
  · exact List.forall_mem_nil _
  · exact List.forall_mem_nil _
  · exact walkTouches_sound hheap _ _ _ _

theorem copyTouches_sound (hbytes : bytesPerCluster volume≠0) (fuel toRead cl : ℕ)
    (buffer : Memory) : ∀ touch∈copyTouches volume fuel toRead cl buffer,touch.Sound volume := by
  induction fuel generalizing toRead cl buffer with
  | zero => exact List.forall_mem_nil _
  | succ fuel ih =>
    rw [copyTouches]
    split
    · exact List.forall_mem_nil _
    · split
      · exact List.forall_mem_nil _
      · have hn : 0+(if toRead<bytesPerCluster volume then toRead else bytesPerCluster volume)≤
            bytesPerCluster volume := by
          split <;> omega
        refine List.forall_mem_append.mpr ⟨List.forall_mem_append.mpr
          ⟨List.forall_mem_cons.mpr ⟨bytesPerSec_le hbytes,List.forall_mem_singleton.mpr hn⟩,
            readFatTouches_sound hbytes cl⟩,?_⟩
        split
        · exact List.forall_mem_nil _
        · exact ih _ _ _

/-- Every touch of a call is sound. -/
theorem callTouches_sound (hheap : Refuses volume heap) (path : List UInt8) (call : Call) :
    ∀ touch∈callTouches volume heap rounds path call,touch.Sound volume := by
  cases call with
  | getFileSize => exact pathTouches_sound hheap path
  | readFile maxBytes =>
    refine List.forall_mem_append.mpr ⟨pathTouches_sound hheap path,?_⟩
    split
    · split
      · exact List.forall_mem_nil _
      · split
        · exact List.forall_mem_nil _
        · dsimp only
          split
          · exact List.forall_mem_nil _
          · next buffer hbuffer => exact copyTouches_sound (hheap _ buffer hbuffer) _ _ _ _
    · exact List.forall_mem_nil _

/-- Sound touches are safe unless a sector of the FAT is delivered that
`sector_buffer` is too small for. -/
theorem safe_iff_of_sound {touches : List Touch} (h : ∀ touch∈touches,touch.Sound volume) :
    (∀ touch∈touches,touch.Safe) ↔
      ¬(Oversized volume ∧ ∃ bytes offset,.fatRead bytes offset∈touches) := by
  refine ⟨fun hsafe ⟨hover,bytes,offset,hm⟩ => ?_,fun hnot touch hm => ?_⟩
  · have hsound := h _ hm
    have hle := (hsafe _ hm).1
    have hlt := hover.1
    rw [hsound.1] at hle
    omega
  · have hsound := h touch hm
    cases touch with
    | modulo divisor => exact hsound
    | fatRead bytes offset =>
      obtain ⟨hbytes,hne,hmod,hlt,hfour⟩ := hsound
      have hsmall : ¬(sectorBufferSize<volume.bytesPerSec ∧ volume.bytesPerSec%512=0) :=
        fun hover => hnot ⟨hover,bytes,offset,hm⟩
      have hsize : bytes=512 := by
        rw [← hbytes] at hsmall
        unfold sectorBufferSize at hsmall
        omega
      refine ⟨hsize.le,?_⟩
      unfold sectorBufferSize
      omega
    | clusterFill bytes room => exact hsound
    | clusterLook offset count room => exact hsound

end Soundness

section Contents

variable {volume : Volume} {heap : ℕ→Except Error Memory}

/-- `KmallocHeap::allocate` hands out no empty buffer. -/
theorem refuses_of_kmalloc (h : ∀ asked, ∃ state supply answer,
    KmallocHeap.allocate state (u32 (bytesPerCluster volume)) supply=some answer ∧
      heap asked=bufferAt answer) : Refuses volume heap := by
  intro asked buffer hbuffer hzero
  obtain ⟨state,supply,answer,halloc,hanswer⟩ := h asked
  rw [hanswer] at hbuffer
  have hpos := bufferAt_pos halloc hbuffer
  rw [hzero] at hpos
  exact absurd hpos (by decide)

/-- `mount` sees the boot sector only. -/
theorem mount_onDevice {device : BlockDevice} {partition : ℕ}
    (hmount : mount device partition=.ok volume) {other : BlockDevice}
    (hsame : SameBoot volume other) : mount other partition=.ok (onDevice volume other) := by
  obtain ⟨-,hsignature,rfl,rfl,hbytes,hcluster,hreserved,hfats,hfat,hroot,hbegin,hdata⟩ :=
    mount_iff.mp hmount
  have hboot : bootSector other volume.partLba=bootSector volume.dev volume.partLba := by
    funext k
    by_cases hk : k<512
    · rw [bootSector,bootSector,copy_inside _ _ (Nat.zero_le k) (by omega),
        copy_inside _ _ (Nat.zero_le k) (by omega),Nat.sub_zero]
      exact hsame.same k hk
    · rw [bootSector,bootSector,copy_outside _ _ (by omega),copy_outside _ _ (by omega)]
  rw [← hboot] at hsignature hbytes hcluster hreserved hfats hfat hroot
  exact mount_iff.mpr ⟨hsame.on_device,hsignature,rfl,rfl,hbytes,hcluster,hreserved,hfats,hfat,hroot,
    hbegin,hdata⟩

/-- The numbers a mounted volume has from its boot sector, and where that is. -/
theorem mount_bounds {device : BlockDevice} {partition : ℕ}
    (hmount : mount device partition=.ok volume) :
    volume.bytesPerSec<2^16 ∧ volume.rootCluster<2^32 ∧ volume.partLba+1<2^64 := by
  have h := mount_iff.mp hmount
  have hon := h.on_device
  have hword := device.sectors_lt
  rw [← h.bytesPerSec,← h.rootCluster,h.partLba]
  exact ⟨readLE_lt _ 11 2,readLE_lt _ 44 4,by omega⟩

/-- A walk whose first lookup fails and touches nothing, touches nothing. -/
theorem walkTouches_eq_nil {rounds : ℕ}
    (h : ∀ want, lookupTouches volume (heap 0) volume.rootCluster want rounds=[] ∧
      ∃ error,findInDirectory volume (heap 0) volume.rootCluster want=some (.error error))
    (fuel : ℕ) (text : List UInt8) :
    walkTouches volume heap rounds fuel text volume.rootCluster 0=[] := by
  cases fuel with
  | zero => rfl
  | succ fuel =>
    obtain ⟨hnone,error,herror⟩ := h (to8dot3Upper (text.takeWhile (fun c => !isSeparator c)))
    rw [walkTouches]
    dsimp only
    split
    · rfl
    · rw [hnone,herror]
      rfl

/-- It finds nothing either. -/
theorem walkLoop_ne_ok
    (h : ∀ want, ∃ error,findInDirectory volume (heap 0) volume.rootCluster want=
      some (.error error)) (fuel : ℕ) (text : List UInt8) (answer : DirEntShort×ℕ) :
    walkLoop volume heap fuel text volume.rootCluster 0≠some (.ok answer) := by
  cases fuel with
  | zero => exact fun hok => by cases hok
  | succ fuel =>
    obtain ⟨error,herror⟩ := h (to8dot3Upper (text.takeWhile (fun c => !isSeparator c)))
    rw [walkLoop]
    dsimp only
    split
    · exact fun hok => by cases hok
    · rw [herror]
      exact fun hok => by cases hok

/-- A call that finds nothing in the root directory, and looks at nothing
there, touches nothing. -/
theorem callTouches_eq_nil {rounds : ℕ} (path : List UInt8) (call : Call)
    (h : ∀ want, lookupTouches volume (heap 0) volume.rootCluster want rounds=[] ∧
      ∃ error,findInDirectory volume (heap 0) volume.rootCluster want=some (.error error)) :
    callTouches volume heap rounds path call=[] := by
  have hpath : pathTouches volume heap rounds path=[] := by
    unfold pathTouches
    dsimp only
    split_ifs
    · rfl
    · rfl
    · exact walkTouches_eq_nil h _ _
  cases call with
  | getFileSize => exact hpath
  | readFile maxBytes =>
    have hfail : ∀ answer, walkPath volume heap path≠some (.ok answer) := by
      intro answer
      rw [walkPath]
      dsimp only
      split_ifs
      · exact fun hok => by cases hok
      · exact fun hok => by cases hok
      · exact walkLoop_ne_ok (fun want => (h want).2) _ _ _
    rw [callTouches,hpath,List.nil_append]
    split
    · next entry asked hok => exact absurd hok (hfail _)
    · rfl

/-- Nothing is touched where the root directory is not searched. -/
theorem callTouches_unsearched {rounds : ℕ} (hheap : Refuses volume heap)
    (hroot : ¬SearchesRoot volume) (path : List UInt8) (call : Call) :
    callTouches volume heap rounds path call=[] := by
  refine callTouches_eq_nil path call (fun want => ?_)
  cases hbuffer : heap 0 with
  | error error => exact ⟨rfl,error,rfl⟩
  | ok buffer =>
    have hone : volume.secPerClus≠0 := fun hzero =>
      hheap 0 buffer hbuffer (by rw [bytesPerCluster,hzero,Nat.zero_mul])
    have hstop : isEoc volume.rootCluster=true ∨ isFree volume.rootCluster=true := by
      by_contra hgoes
      exact hroot ⟨hone,hgoes⟩
    refine ⟨?_,.fromCode 1,?_⟩
    · rw [lookupTouches]
      cases rounds with
      | zero => rfl
      | succ rounds => rw [findTouches,if_pos hstop]
    · have hfuel : chainFuel=(2^28-1)+1 := by decide
      rw [findInDirectory,hfuel,findLoop,if_pos hstop]

/-- A directory of deleted entries. -/
def erased : Memory := fun _ => 0xe5

theorem erased_passed (want : List UInt8) (address : ℕ) :
    Passed want (entryAt erased address) := by
  have hfirst : (entryAt erased address).first=0xe5 := rfl
  refine ⟨by rw [hfirst]; decide,Or.inl ?_⟩
  simp only [DirEntShort.isSkipped,hfirst,true_or,decide_true]

/-- A device of deleted entries with the boot sector of the volume. -/
def erasedDevice (volume : Volume) : BlockDevice where
  image x := if volume.partLba*512≤x ∧ x<volume.partLba*512+512 then volume.dev.image x else 0xe5
  sectors := 2^64-1
  sectors_lt := by decide

/-- The device delivers any whole sectors it can have. -/
theorem erased_read {lba size : ℕ} (hne : size≠0) (hmod : size%512=0) (hlba : lba+size/512<2^64)
    (buffer : Memory) : (erasedDevice volume).read lba size buffer=
      .ok (copy buffer 0 (erasedDevice volume).image (lba*512) size) := by
  have hsectors : (erasedDevice volume).sectors=2^64-1 := rfl
  rw [BlockDevice.read,if_neg (by omega),hsectors,if_neg (by omega)]

/-- Its root directory is one of deleted entries. -/
theorem erased_root (hapart : RootApart volume) (hne : volume.bytesPerSec≠0)
    (hmod : volume.bytesPerSec%512=0) :
    readCluster (onDevice volume (erasedDevice volume)) volume.rootCluster erased=.ok erased := by
  have hfilled : copy erased 0 (erasedDevice volume).image (rootLba volume*512)
      volume.bytesPerSec=erased := by
    funext k
    by_cases hk : k<volume.bytesPerSec
    · have hout : ¬(volume.partLba*512≤rootLba volume*512+k ∧
          rootLba volume*512+k<volume.partLba*512+512) := by
        have hor := hapart.apart
        omega
      rw [copy_inside _ _ (Nat.zero_le k) (by omega),Nat.sub_zero,erasedDevice]
      simp only [if_neg hout,erased]
    · rw [copy_outside _ _ (by omega)]
  have hcopy := @erased_read volume (rootLba volume) _ hne hmod hapart.on_device erased
  rw [hfilled] at hcopy
  exact hcopy

/-- The FAT is read behind it. -/
theorem erased_readFatTouches (hne : volume.bytesPerSec≠0) (hmod : volume.bytesPerSec%512=0)
    {cluster : ℕ} (hlba : cluster*4+volume.bytesPerSec/512<2^64) :
    readFatTouches (onDevice volume (erasedDevice volume)) cluster=
      [.modulo volume.bytesPerSec,
        .fatRead volume.bytesPerSec (cluster*4%volume.bytesPerSec)] := by
  have hread := @erased_read volume (cluster*4) _ hne hmod hlba (fun _ => 0)
  simp only [readFatTouches,onDevice,hread]

/-- On that device a search of the root directory comes to the FAT. -/
theorem erased_fatRead {device : BlockDevice} {partition : ℕ}
    (hmount : mount device partition=.ok volume) (hapart : RootApart volume)
    (hover : Oversized volume) (hroot : SearchesRoot volume) :
    .fatRead volume.bytesPerSec (volume.rootCluster*4%volume.bytesPerSec)∈
      callTouches (onDevice volume (erasedDevice volume)) (fun _ => .ok erased) 1 [97] .getFileSize := by
  obtain ⟨hbytes,hcluster,-⟩ := mount_bounds hmount
  obtain ⟨hlow,hmod⟩ := hover
  have hne : volume.bytesPerSec≠0 := by omega
  have hread := erased_root hapart hne hmod
  have hscan : scanEntries erased (to8dot3Upper [97])
      (entsPerCluster (onDevice volume (erasedDevice volume))) 0=.more :=
    scanEntries_more (fun j _ => erased_passed _ _)
  have hfat := @erased_readFatTouches volume hne hmod volume.rootCluster (by omega)
  have hfind : .fatRead volume.bytesPerSec (volume.rootCluster*4%volume.bytesPerSec)∈
      findTouches (onDevice volume (erasedDevice volume)) (to8dot3Upper [97]) 1
        volume.rootCluster erased := by
    rw [findTouches,if_neg hroot.2]
    simp only [hread,hscan,hfat]
    exact List.mem_cons_of_mem _ (List.mem_append_right _ (List.mem_append_left _
      (List.mem_cons_of_mem _ List.mem_cons_self)))
  have hpath : callTouches (onDevice volume (erasedDevice volume)) (fun _ => .ok erased) 1 [97]
      .getFileSize=walkTouches (onDevice volume (erasedDevice volume)) (fun _ => .ok erased) 1 1 [97]
        volume.rootCluster 0 := rfl
  rw [hpath,walkTouches]
  exact List.mem_append_left _ hfind

/-- It has the boot sector. -/
theorem erased_sameBoot {device : BlockDevice} {partition : ℕ}
    (hmount : mount device partition=.ok volume) : SameBoot volume (erasedDevice volume) := by
  obtain ⟨-,-,hpart⟩ := mount_bounds hmount
  have hsectors : (erasedDevice volume).sectors=2^64-1 := rfl
  refine ⟨by rw [hsectors]; omega,fun k hk => ?_⟩
  have hin : volume.partLba*512≤volume.partLba*512+k ∧
      volume.partLba*512+k<volume.partLba*512+512 := by omega
  simp only [erasedDevice,if_pos hin]

/-- A call of a mounted volume divides by no zero and stays in its buffers
exactly unless sectors of the FAT are delivered that are longer than
`sector_buffer`; whatever the volume contains behind its boot sector, exactly
when sectors are not longer or the root directory is never searched. -/
theorem calls_safe_iff {device : BlockDevice} {partition : ℕ}
    (hmount : mount device partition=.ok volume) :
    (∀ heap, Refuses volume heap → ∀ path call rounds,
      ((∀ touch∈callTouches volume heap rounds path call,touch.Safe) ↔
        ¬(Oversized volume ∧
          ∃ bytes offset,.fatRead bytes offset∈callTouches volume heap rounds path call))) ∧
    (RootApart volume →
      ((∀ other, SameBoot volume other → ∀ heap, Refuses volume heap → ∀ path call rounds,
        ∀ touch∈callTouches (onDevice volume other) heap rounds path call,touch.Safe) ↔
          ¬(Oversized volume ∧ SearchesRoot volume))) := by
  refine ⟨fun heap hheap path call rounds => safe_iff_of_sound (callTouches_sound hheap path call),
    fun hapart => ⟨fun hall ⟨hover,hroot⟩ => ?_,fun hnot other hsame heap hheap path call rounds => ?_⟩⟩
  · have hbytesPerCluster : bytesPerCluster volume≠0 := by
      have hlow := hover.1
      exact Nat.mul_ne_zero hroot.1 (by omega)
    have hsafe := hall (erasedDevice volume) (erased_sameBoot hmount) (fun _ => .ok erased)
      (fun _ _ _ => hbytesPerCluster) [97] .getFileSize 1 _
      (erased_fatRead hmount hapart hover hroot)
    have hlow := hover.1
    have hle := hsafe.1
    omega
  · have hother := mount_onDevice hmount hsame
    have hheap' : Refuses (onDevice volume other) heap := hheap
    by_cases hroot : SearchesRoot volume
    · refine (safe_iff_of_sound (callTouches_sound hheap' path call)).mpr (fun hover => ?_)
      exact hnot ⟨hover.1,hroot⟩
    · have hnone : callTouches (onDevice volume other) heap rounds path call=[] :=
        @callTouches_unsearched (onDevice volume other) heap rounds hheap' hroot path call
      rw [hnone]
      exact List.forall_mem_nil _

/-- Every call of the sample volume. -/
theorem calls_safe_iff_sample :
    (∀ heap, Refuses sampleVolume heap → ∀ path call rounds,
      ((∀ touch∈callTouches sampleVolume heap rounds path call,touch.Safe) ↔
        ¬(Oversized sampleVolume ∧
          ∃ bytes offset,.fatRead bytes offset∈callTouches sampleVolume heap rounds path call))) ∧
    (RootApart sampleVolume →
      ((∀ other, SameBoot sampleVolume other → ∀ heap, Refuses sampleVolume heap →
        ∀ path call rounds,
          ∀ touch∈callTouches (onDevice sampleVolume other) heap rounds path call,touch.Safe) ↔
            ¬(Oversized sampleVolume ∧ SearchesRoot sampleVolume))) :=
  calls_safe_iff sample_mounted

/-- A device whose boot sector says that sectors have 1024 bytes. -/
def bigDevice : BlockDevice where
  image x := if x<512 then (((12,4)::sampleBytes).lookup x).getD 0 else 0xe5
  sectors := 64
  sectors_lt := sampleDevice.sectors_lt

/-- The volume on it. -/
def bigVolume : Volume := {sampleVolume with dev := bigDevice,bytesPerSec := 1024}

theorem big_mounted : mount bigDevice 0=.ok bigVolume :=
  mount_iff.mpr ⟨by decide,by decide +kernel,rfl,rfl,by decide +kernel,by decide +kernel,
    by decide +kernel,by decide +kernel,by decide +kernel,by decide +kernel,by decide,by decide⟩

/-- `get_file_size` puts 1024 bytes in `sector_buffer`. -/
theorem big_fatRead :
    .fatRead 1024 8∈callTouches bigVolume (fun _ => .ok erased) 1 [97] .getFileSize :=
  List.mem_append_left _ (by decide +kernel :
    .fatRead 1024 8∈findTouches bigVolume (to8dot3Upper [97]) 1 2 erased)

/-- Such a boot sector is accepted, and the buffer overrun. -/
theorem calls_not_always_safe : ¬∀ (device : BlockDevice) (partition : ℕ) (volume : Volume)
    (heap : ℕ→Except Error Memory), mount device partition=.ok volume → Refuses volume heap →
      ∀ path call rounds, ∀ touch∈callTouches volume heap rounds path call,touch.Safe := by
  intro hall
  have hrefuses : Refuses bigVolume (fun _ => .ok erased) := fun _ _ _ => by decide
  have hsafe := hall bigDevice 0 bigVolume _ big_mounted hrefuses [97] .getFileSize 1 _ big_fatRead
  exact absurd hsafe.1 (by decide)

end Contents

end WorkbenchOS.FatBuffers
