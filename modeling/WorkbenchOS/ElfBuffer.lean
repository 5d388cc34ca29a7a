import WorkbenchOS.ElfLoader
import WorkbenchOS.FatFiles

/-!
# What the loader touches in its buffer

`load_elf` reads a file into a static buffer of 64 KiB and then follows the
numbers it finds there. Neither the size of the file nor any of these numbers
is compared with the size of the buffer. The accesses are listed in the order
in which the code makes them; each number that decides where an access goes
has its own bound, and the accesses stay inside exactly when the numbers that
are reached are within their bounds.
-/

namespace WorkbenchOS.ElfBuffer

open ByteMemory LibStd TransitionRuns MemoryManagement Fat32 ElfLoader

/-- `sizeof(buffer)`. -/
def bufferSize : ℕ := 64*1024

/-- An access of the loader. -/
inductive Access where
  /-- So many bytes of the buffer, from an index on. -/
  | buffer (index count : ℕ)
  /-- So many bytes of a destination that has a given room. -/
  | destination (count room : ℕ)
  deriving DecidableEq

/-- The access stays where it should. Indices wrap like the pointers they
become. -/
def Access.Inside : Access→Prop
  | .buffer index count => ∀ k<count,u64 (index+k)<bufferSize
  | .destination count room => count≤room

instance : DecidablePred Access.Inside := fun access =>
  match access with
  | .buffer index count => inferInstanceAs (Decidable (∀ k<count,u64 (index+k)<bufferSize))
  | .destination count room => inferInstanceAs (Decidable (count≤room))

/-- The writes of the `while` loop of `read_file`. -/
def copyAccesses (volume : Volume) : (fuel toRead cl copied : ℕ)→(buffer : Memory)→List Access
  | 0,_,_,_,_ => []
  | fuel+1,toRead,cl,copied,buffer =>
    if toRead=0 ∨ isEoc cl ∨ isFree cl then []
    else
      match readCluster volume cl buffer with
      | .error _ => []
      | .ok filled =>
        let n := if toRead<bytesPerCluster volume then toRead else bytesPerCluster volume
        .buffer copied n::(match readFat volume cl with
          | .error _ => []
          | .ok next => copyAccesses volume fuel (toRead-n) next (copied+n) filled)

/-- The writes of `read_file`. -/
def readFileAccesses (volume : Volume) (heap : ℕ→Except Error Memory) (path : List UInt8)
    (maxBytes : ℕ) : List Access :=
  match walkPath volume heap path with
  | some (.ok (entry,asked)) =>
    if entry.isDirectory then []
    else if entry.fileSize=0 then []
    else
      let toRead := if maxBytes<entry.fileSize then maxBytes else entry.fileSize
      match heap asked with
      | .error _ => []
      | .ok clusterBuffer => copyAccesses volume (toRead+1) toRead entry.firstCluster 0 clusterBuffer
  | _ => []

/-- What the loader does with the header at an index of the buffer. -/
def headerAccesses (buffer : Memory) (pdpt : ℕ) (manager : MemoryManager) (address : ℕ) :
    List Access :=
  let header := programHeader buffer address
  .buffer address 4::(if header.type≠ptLoad then []
    else [.buffer (address+40) 8,.buffer (address+8) 8,.buffer (address+16) 8,
        .buffer (address+4) 4]++
      match allocateUserPages manager pdpt header.vaddr (loadPages header)
        ((header.flags&&&2)>>>1≠0) (header.flags&&&1≠0) with
      | some (.ok _,_) => [.buffer (address+32) 8,.buffer header.offset header.filesz,
          .destination header.filesz (loadPages header*Page)]
      | _ => [])

/-- The loop over the program headers, from these indices of the buffer on.
`e_phnum` is read before each of them and once more at the end. -/
def segmentsAccesses (buffer : Memory) (pdpt : ℕ) : List ℕ→MemoryManager→List Access
  | [],_ => [.buffer 56 2]
  | address::rest,manager => .buffer 56 2::(headerAccesses buffer pdpt manager address++
      match loadedSegment buffer pdpt manager (programHeader buffer address) with
      | none => []
      | some after => segmentsAccesses buffer pdpt rest after)

/-- The indices of the program headers. -/
def headerAddresses (buffer : Memory) : List ℕ :=
  (List.range (readLE buffer 56 2)).map (fun i => readLE buffer 32 8+sizeofElf64Phdr*i)

/-- `load_elf` once the file is in the buffer. -/
def imageAccesses (buffer : Memory) (pdpt : ℕ) (manager : MemoryManager) : List Access :=
  .buffer 0 4::(if readLE buffer 0 4≠elfMagic then [.buffer 0 4]
    else .buffer 32 8::segmentsAccesses buffer pdpt (headerAddresses buffer) manager)

/-- The file as `load_elf` fetches it: its size is asked for, then so many
bytes are read, as a 32-bit number. The heap answers each of the two calls. -/
def fetch (volume : Volume) (sizeHeap readHeap : ℕ→Except Error Memory) (path : List UInt8)
    (out : Memory) : Option (Except Error Memory) :=
  match getFileSize volume sizeHeap path with
  | none => none
  | some (.error error) => some (.error error)
  | some (.ok fileSize) =>
    match readFile volume readHeap path out (fileSize%2^32) with
    | none => none
    | some (.error error,_) => some (.error error)
    | some (.ok _,buffer) => some (.ok buffer)

/-- The writes of `load_elf` before it looks at the buffer. -/
def fetchAccesses (volume : Volume) (sizeHeap readHeap : ℕ→Except Error Memory)
    (path : List UInt8) : List Access :=
  match getFileSize volume sizeHeap path with
  | some (.ok fileSize) => readFileAccesses volume readHeap path (fileSize%2^32)
  | _ => []

/-- `load_elf`: its accesses, with what the buffer holds before. -/
def loadElfAccesses (volume : Volume) (sizeHeap readHeap : ℕ→Except Error Memory)
    (path : List UInt8) (out : Memory) (pdpt : ℕ) (manager : MemoryManager) : List Access :=
  fetchAccesses volume sizeHeap readHeap path++
    match fetch volume sizeHeap readHeap path out with
    | some (.ok buffer) => imageAccesses buffer pdpt manager
    | _ => []

/-- The driver gets as far as `n` clusters behind this one. -/
def Reaches (volume : Volume) : (n cl : ℕ)→Prop
  | 0,cl => ¬(isEoc cl ∨ isFree cl) ∧ ∃ filled,readCluster volume cl (fun _ => 0)=.ok filled
  | n+1,cl => (¬(isEoc cl ∨ isFree cl) ∧ ∃ filled,readCluster volume cl (fun _ => 0)=.ok filled) ∧
      ∃ next,readFat volume cl=.ok next ∧ Reaches volume n next

/-- More bytes are to be read than the buffer has, and the driver gets to the
cluster that holds the first one behind its end. -/
def TooLong (volume : Volume) (entry : DirEntShort) (maxBytes : ℕ) : Prop :=
  bufferSize< min maxBytes entry.fileSize ∧ bytesPerCluster volume≠0 ∧
    Reaches volume (bufferSize/bytesPerCluster volume) entry.firstCluster

/-- The file that is read is not too long. -/
def FileFits (volume : Volume) (sizeHeap readHeap : ℕ→Except Error Memory) (path : List UInt8) :
    Prop :=
  ∀ fileSize entry asked clusterBuffer,getFileSize volume sizeHeap path=some (.ok fileSize) →
    walkPath volume readHeap path=some (.ok (entry,asked)) → entry.isDirectory=false →
    readHeap asked=.ok clusterBuffer → ¬TooLong volume entry (fileSize%2^32)

/-- The block for a segment is allocated. -/
def Allocates (pdpt : ℕ) (manager : MemoryManager) (header : Elf64Phdr) : Prop :=
  ∃ destination after,allocateUserPages manager pdpt header.vaddr (loadPages header)
    ((header.flags&&&2)>>>1≠0) (header.flags&&&1≠0)=some (.ok destination,after)

/-- The bounds of a program header: it ends in the buffer, and when its block
is allocated its bytes do too and are no more than the block has. -/
def HeaderFits (buffer : Memory) (pdpt : ℕ) (manager : MemoryManager) (address : ℕ) : Prop :=
  address+4≤bufferSize ∧ ((programHeader buffer address).type=ptLoad → address+48≤bufferSize ∧
    (Allocates pdpt manager (programHeader buffer address) →
      ((programHeader buffer address).filesz=0 ∨
        (programHeader buffer address).offset+(programHeader buffer address).filesz≤bufferSize) ∧
      (programHeader buffer address).filesz≤loadPages (programHeader buffer address)*Page))

/-- The loader goes on behind the header at an index. -/
def headerStep (buffer : Memory) (pdpt : ℕ) (manager : MemoryManager) (address : ℕ) :
    Option MemoryManager :=
  loadedSegment buffer pdpt manager (programHeader buffer address)

section Bounds

/-- An access of the buffer stays inside when it is empty or ends there. -/
theorem inside_buffer_iff {index count : ℕ} (h : index<2^64) :
    (Access.buffer index count).Inside ↔ count=0 ∨ index+count≤bufferSize := by
  unfold Access.Inside bufferSize
  constructor
  · intro hin
    by_contra hno
    rw [not_or] at hno
    by_cases hfar : 64*1024≤ index
    · have hfirst := hin 0 (by omega)
      rw [Nat.add_zero,u64_of_lt h] at hfirst
      omega
    · have hlast := hin (64*1024-index) (by omega)
      rw [u64_of_lt (by omega)] at hlast
      omega
  · rintro (hzero|hend) k hk
    · omega
    · rw [u64_of_lt (by omega)]
      omega

end Bounds

section Files

variable {volume : Volume}

/-- Whether a cluster can be read does not depend on the buffer. -/
theorem readCluster_ok_iff (volume : Volume) (cl : ℕ) (first second : Memory) :
    (∃ filled,readCluster volume cl first=.ok filled) ↔
      ∃ filled,readCluster volume cl second=.ok filled := by
  unfold readCluster BlockDevice.read
  dsimp only
  split
  · exact iff_of_false (fun ⟨_,he⟩ => by cases he) (fun ⟨_,he⟩ => by cases he)
  · split
    · exact iff_of_false (fun ⟨_,he⟩ => by cases he) (fun ⟨_,he⟩ => by cases he)
    · exact iff_of_true ⟨_,rfl⟩ ⟨_,rfl⟩

/-- The driver gets nowhere from a cluster it does not read. -/
theorem Reaches.head {n cl : ℕ} (h : Reaches volume n cl) :
    ¬(isEoc cl ∨ isFree cl) ∧ ∃ filled,readCluster volume cl (fun _ => 0)=.ok filled := by
  cases n with
  | zero => exact h
  | succ n => exact h.1

/-- Behind a cluster that fits in the room, the driver is one cluster nearer. -/
theorem reaches_next_iff {room cl next : ℕ} (hbytes : bytesPerCluster volume≠0)
    (hle : bytesPerCluster volume≤room)
    (hread : ¬(isEoc cl ∨ isFree cl) ∧ ∃ filled,readCluster volume cl (fun _ => 0)=.ok filled)
    (hfat : readFat volume cl=.ok next) :
    Reaches volume (room/bytesPerCluster volume) cl ↔
      Reaches volume ((room-bytesPerCluster volume)/bytesPerCluster volume) next := by
  rw [Nat.div_eq_sub_div (Nat.pos_of_ne_zero hbytes) hle]
  constructor
  · rintro ⟨-,other,hother,hreach⟩
    rw [hfat] at hother
    cases hother
    exact hreach
  · exact fun hreach => ⟨hread,next,hfat,hreach⟩

/-- It gets no further than a cluster whose FAT entry cannot be read. -/
theorem not_reaches_of_fat_error {room cl : ℕ} {error : Error} (hbytes : bytesPerCluster volume≠0)
    (hle : bytesPerCluster volume≤room) (hfat : readFat volume cl=.error error) :
    ¬Reaches volume (room/bytesPerCluster volume) cl := by
  rw [Nat.div_eq_sub_div (Nat.pos_of_ne_zero hbytes) hle]
  rintro ⟨-,next,hnext,-⟩
  rw [hfat] at hnext
  cases hnext

/-- While there is something to read, the loop writes a cluster, or what is
left to read of it, and goes on with the next one. -/
theorem copyAccesses_goes {toRead cl : ℕ} {buffer filled : Memory} (fuel copied : ℕ)
    (hgo : ¬(toRead=0 ∨ isEoc cl ∨ isFree cl)) (hcluster : readCluster volume cl buffer=.ok filled) :
    copyAccesses volume (fuel+1) toRead cl copied buffer=
      .buffer copied (min toRead (bytesPerCluster volume))::(match readFat volume cl with
        | .error _ => []
        | .ok next => copyAccesses volume fuel (toRead-min toRead (bytesPerCluster volume)) next
          (copied+min toRead (bytesPerCluster volume)) filled) := by
  have hn : (if toRead<bytesPerCluster volume then toRead else bytesPerCluster volume)=
      min toRead (bytesPerCluster volume) := by
    split <;> omega
  rw [copyAccesses,if_neg hgo,hcluster]
  dsimp only
  rw [hn]

/-- The writes of the copy loop stay inside exactly when the driver does not
get to the cluster that holds the first byte behind the buffer. -/
theorem copyAccesses_inside (fuel toRead cl copied : ℕ) (buffer : Memory)
    (hc : copied≤bufferSize) (hf : bytesPerCluster volume≠0 → toRead<fuel) :
    (∀ access∈copyAccesses volume fuel toRead cl copied buffer,access.Inside) ↔
      ¬(bufferSize<copied+toRead ∧ bytesPerCluster volume≠0 ∧
        Reaches volume ((bufferSize-copied)/bytesPerCluster volume) cl) := by
  induction fuel generalizing toRead cl copied buffer with
  | zero => exact iff_of_true (fun _ hm => by cases hm) (fun hl => absurd (hf hl.2.1) (Nat.not_lt_zero _))
  | succ fuel ih =>
    by_cases hend : toRead=0 ∨ isEoc cl ∨ isFree cl
    · rw [copyAccesses,if_pos hend]
      refine iff_of_true (fun _ hm => by cases hm) ?_
      rintro ⟨hlong,-,hreach⟩
      rcases hend with hzero|hstop
      · omega
      · exact hreach.head.1 hstop
    · cases hcluster : readCluster volume cl buffer with
      | error error =>
        rw [copyAccesses,if_neg hend,hcluster]
        refine iff_of_true (fun _ hm => by cases hm) (fun hl => ?_)
        obtain ⟨filled,hfilled⟩ := (readCluster_ok_iff volume cl _ buffer).mp hl.2.2.head.2
        rw [hcluster] at hfilled
        cases hfilled
      | ok filled =>
        have hgoes := (readCluster_ok_iff volume cl buffer (fun _ => 0)).mp ⟨filled,hcluster⟩
        have hindex : copied<2^64 := lt_of_le_of_lt hc (by decide)
        rw [copyAccesses_goes fuel copied hend hcluster,List.forall_mem_cons,
          inside_buffer_iff hindex]
        rw [not_or] at hend
        by_cases hroom : copied+min toRead (bytesPerCluster volume)≤bufferSize
        · -- more is to be read than fits, so this cluster is copied whole
          have hwhole : bufferSize<copied+toRead →
              min toRead (bytesPerCluster volume)=bytesPerCluster volume ∧
                bytesPerCluster volume≤bufferSize-copied := by
            omega
          cases hfat : readFat volume cl with
          | error error =>
            refine iff_of_true ⟨Or.inr hroom,fun _ hm => by cases hm⟩ ?_
            rintro ⟨hlong,hbytes,hreach⟩
            exact not_reaches_of_fat_error hbytes (hwhole hlong).2 hfat hreach
          | ok next =>
            have hfuel : bytesPerCluster volume≠0 →
                toRead-min toRead (bytesPerCluster volume)<fuel := by
              intro hbytes
              have hlt := hf hbytes
              omega
            have hsum : copied+min toRead (bytesPerCluster volume)+
                (toRead-min toRead (bytesPerCluster volume))=copied+toRead := by
              omega
            dsimp only
            rw [ih _ next _ filled hroom hfuel,hsum,and_iff_right (Or.inr hroom)]
            refine not_congr (and_congr_right fun hlong => and_congr_right fun hbytes => ?_)
            obtain ⟨hall,hle⟩ := hwhole hlong
            rw [reaches_next_iff hbytes hle ⟨hend.2,hgoes⟩ hfat,hall,Nat.sub_sub]
        · have hfirst : (bufferSize-copied)/bytesPerCluster volume=0 :=
            Nat.div_eq_of_lt (by omega)
          refine iff_of_false (fun hin => ?_) (not_not.mpr ⟨by omega,by omega,?_⟩)
          · rcases hin.1 with hzero|hle
            · omega
            · exact hroom hle
          · rw [hfirst]
            exact ⟨hend.2,hgoes⟩

/-- The writes of `read_file` stay inside exactly when the file it finds is not
too long. -/
theorem readFileAccesses_inside (volume : Volume) (heap : ℕ→Except Error Memory)
    (path : List UInt8) (maxBytes : ℕ) :
    (∀ access∈readFileAccesses volume heap path maxBytes,access.Inside) ↔
      ∀ entry asked clusterBuffer,walkPath volume heap path=some (.ok (entry,asked)) →
        entry.isDirectory=false → heap asked=.ok clusterBuffer → ¬TooLong volume entry maxBytes := by
  unfold readFileAccesses
  split
  · rename_i entry asked hwalk
    have hone : (∀ entry' asked' clusterBuffer,walkPath volume heap path=
        some (.ok (entry',asked')) → entry'.isDirectory=false → heap asked'=.ok clusterBuffer →
          ¬TooLong volume entry' maxBytes) ↔
        ∀ clusterBuffer,entry.isDirectory=false → heap asked=.ok clusterBuffer →
          ¬TooLong volume entry maxBytes := by
      rw [hwalk]
      constructor
      · exact fun h clusterBuffer => h entry asked clusterBuffer rfl
      · rintro h entry' asked' clusterBuffer heq
        cases heq
        exact h clusterBuffer
    rw [hone]
    by_cases hd : entry.isDirectory=true
    · rw [if_pos hd]
      refine iff_of_true (fun _ hm => by cases hm) (fun _ hf => ?_)
      rw [hd] at hf
      cases hf
    · rw [if_neg hd]
      by_cases hz : entry.fileSize=0
      · rw [if_pos hz]
        refine iff_of_true (fun _ hm => by cases hm) (fun _ _ _ hlong => ?_)
        have hmin := hlong.1
        rw [hz,Nat.min_zero] at hmin
        exact absurd hmin (Nat.not_lt_zero _)
      · rw [if_neg hz]
        have hmin : (if maxBytes<entry.fileSize then maxBytes else entry.fileSize)=
            min maxBytes entry.fileSize := by
          split <;> omega
        dsimp only
        rw [hmin]
        cases hheap : heap asked with
        | error error => exact iff_of_true (fun _ hm => by cases hm) (fun _ _ he => by cases he)
        | ok clusterBuffer =>
          dsimp only
          rw [copyAccesses_inside _ _ _ 0 _ (Nat.zero_le _) (fun _ => Nat.lt_succ_self _),
            Nat.zero_add,Nat.sub_zero]
          constructor
          · exact fun h _ _ _ => h
          · exact fun h => h clusterBuffer (Bool.not_eq_true _ ▸ hd) rfl
  · rename_i hother
    exact iff_of_true (fun _ hm => by cases hm) (fun entry asked _ hwalk => absurd hwalk (hother entry asked))

/-- So do those of `load_elf` before it looks at the buffer. -/
theorem fetchAccesses_inside (volume : Volume) (sizeHeap readHeap : ℕ→Except Error Memory)
    (path : List UInt8) : (∀ access∈fetchAccesses volume sizeHeap readHeap path,access.Inside) ↔
      FileFits volume sizeHeap readHeap path := by
  unfold fetchAccesses FileFits
  split
  · rename_i fileSize hsize
    rw [readFileAccesses_inside,hsize]
    constructor
    · rintro h fileSize' entry asked clusterBuffer heq
      cases heq
      exact h entry asked clusterBuffer
    · exact fun h entry asked clusterBuffer => h fileSize entry asked clusterBuffer rfl
  · rename_i hother
    exact iff_of_true (fun _ hm => by cases hm)
      (fun fileSize _ _ _ hsize => absurd hsize (hother fileSize))

end Files

section Headers

variable {buffer : Memory} {pdpt : ℕ} {manager : MemoryManager}

/-- The accesses for a header stay inside exactly when its numbers are within
their bounds. -/
theorem headerAccesses_inside {address : ℕ} (h : address+48<2^64) :
    (∀ access∈headerAccesses buffer pdpt manager address,access.Inside) ↔
      HeaderFits buffer pdpt manager address := by
  have hword : ∀ offset count,0<count → offset+count≤48 →
      ((Access.buffer (address+offset) count).Inside ↔ address+offset+count≤bufferSize) := by
    intro offset count hpos hle
    rw [inside_buffer_iff (by omega)]
    exact ⟨fun hor => hor.resolve_left (by omega),Or.inr⟩
  have htype := hword 0 4 (by decide) (by decide)
  rw [Nat.add_zero] at htype
  have hoffset : (programHeader buffer address).offset<2^64 :=
    lt_of_lt_of_eq (readLE_lt buffer (address+8) 8) (by norm_num)
  unfold headerAccesses HeaderFits
  dsimp only
  rw [List.forall_mem_cons,htype]
  refine and_congr_right (fun hfour => ?_)
  by_cases ht : (programHeader buffer address).type=ptLoad
  · rw [if_neg (not_not.mpr ht),imp_iff_right ht]
    rw [List.forall_mem_append,List.forall_mem_cons,List.forall_mem_cons,List.forall_mem_cons,
      List.forall_mem_singleton,hword 40 8 (by decide) (by decide),
      hword 8 8 (by decide) (by decide),hword 16 8 (by decide) (by decide),
      hword 4 4 (by decide) (by decide)]
    have hends : (address+40+8≤bufferSize ∧ address+8+8≤bufferSize ∧ address+16+8≤bufferSize ∧
        address+4+4≤bufferSize) ↔ address+48≤bufferSize := by omega
    rw [hends]
    refine and_congr_right (fun hinside => ?_)
    split
    · rename_i destination after hcall
      have hallocates : Allocates pdpt manager (programHeader buffer address) :=
        ⟨destination,after,hcall⟩
      rw [imp_iff_right hallocates,List.forall_mem_cons,List.forall_mem_cons,
        List.forall_mem_singleton,hword 32 8 (by decide) (by decide),inside_buffer_iff hoffset]
      exact and_iff_right (by omega)
    · rename_i hother
      refine iff_of_true (fun _ hm => by cases hm) ?_
      rintro ⟨destination,after,hcall⟩
      exact absurd hcall (hother destination after)
  · rw [if_pos ht]
    exact iff_of_true (fun _ hm => by cases hm) (fun hload => absurd hload ht)

/-- The loop stays inside exactly when every header it gets to is within its
bounds. -/
theorem segmentsAccesses_inside {addresses : List ℕ} (h : ∀ address∈addresses,address+48<2^64) :
    (∀ access∈segmentsAccesses buffer pdpt addresses manager,access.Inside) ↔
      Each (headerStep buffer pdpt) (HeaderFits buffer pdpt) manager addresses := by
  have hcount : (Access.buffer 56 2).Inside := by decide
  induction addresses generalizing manager with
  | nil =>
    rw [segmentsAccesses,List.forall_mem_singleton]
    exact iff_of_true hcount trivial
  | cons address rest ih =>
    obtain ⟨hfirst,hrest⟩ := List.forall_mem_cons.mp h
    rw [segmentsAccesses,List.forall_mem_cons,List.forall_mem_append,and_iff_right hcount,
      headerAccesses_inside hfirst,Each]
    refine and_congr_right (fun hfits => ?_)
    cases hstep : loadedSegment buffer pdpt manager (programHeader buffer address) with
    | none =>
      refine iff_of_true (fun _ hm => by cases hm) (fun next hn => ?_)
      rw [headerStep,hstep] at hn
      cases hn
    | some after =>
      refine (ih hrest).trans ⟨fun he next hn => ?_,fun he => he after hstep⟩
      rw [headerStep,hstep] at hn
      cases hn
      exact he

/-- The first header decides when the headers begin near the end of the address
space. -/
theorem headerAddresses_inside :
    (∀ access∈segmentsAccesses buffer pdpt (headerAddresses buffer) manager,access.Inside) ↔
      Each (headerStep buffer pdpt) (HeaderFits buffer pdpt) manager (headerAddresses buffer) := by
  have hcount : readLE buffer 56 2<2^16 := lt_of_lt_of_eq (readLE_lt buffer 56 2) (by norm_num)
  by_cases hnear : readLE buffer 32 8<2^63
  · refine segmentsAccesses_inside (fun address hm => ?_)
    obtain ⟨i,hi,rfl⟩ := List.mem_map.mp hm
    have hlt := List.mem_range.mp hi
    unfold sizeofElf64Phdr
    omega
  · unfold headerAddresses
    cases hzero : readLE buffer 56 2 with
    | zero => exact segmentsAccesses_inside (fun _ hm => by cases hm)
    | succ n =>
      have hfar : readLE buffer 32 8<2^64 :=
        lt_of_lt_of_eq (readLE_lt buffer 32 8) (by norm_num)
      rw [List.range_succ_eq_map,List.map_cons,Nat.mul_zero,Nat.add_zero]
      refine iff_of_false (fun hin => ?_) (fun he => ?_)
      · have hfirst := hin (.buffer (readLE buffer 32 8) 4) (by
          rw [segmentsAccesses,headerAccesses]
          exact List.mem_cons_of_mem _ (List.mem_append_left _ List.mem_cons_self))
        rcases (inside_buffer_iff hfar).mp hfirst with hnone|hend
        · omega
        · unfold bufferSize at hend
          omega
      · have hend := he.1.1
        unfold bufferSize at hend
        omega

/-- `load_elf` stays inside its buffer and its destinations, whatever is on the
volume and whatever was in the buffer, exactly when the file is not too long and
the headers it gets to are within their bounds. -/
theorem loadElf_inside_iff (volume : Volume) (sizeHeap readHeap : ℕ→Except Error Memory)
    (path : List UInt8) (out : Memory) (pdpt : ℕ) (manager : MemoryManager) :
    (∀ access∈loadElfAccesses volume sizeHeap readHeap path out pdpt manager,access.Inside) ↔
      FileFits volume sizeHeap readHeap path ∧
      ∀ buffer,fetch volume sizeHeap readHeap path out=some (.ok buffer) →
        readLE buffer 0 4=elfMagic →
          Each (headerStep buffer pdpt) (HeaderFits buffer pdpt) manager (headerAddresses buffer) := by
  have hmagic : (Access.buffer 0 4).Inside := by decide
  have hplace : (Access.buffer 32 8).Inside := by decide
  rw [loadElfAccesses,List.forall_mem_append,fetchAccesses_inside]
  refine and_congr_right (fun _ => ?_)
  split
  · rename_i buffer hfetch
    have hone : (∀ access∈imageAccesses buffer pdpt manager,access.Inside) ↔
        (readLE buffer 0 4=elfMagic → Each (headerStep buffer pdpt) (HeaderFits buffer pdpt)
          manager (headerAddresses buffer)) := by
      rw [imageAccesses,List.forall_mem_cons,and_iff_right hmagic]
      by_cases hm : readLE buffer 0 4=elfMagic
      · rw [if_neg (not_not.mpr hm),List.forall_mem_cons,and_iff_right hplace,imp_iff_right hm]
        exact headerAddresses_inside
      · rw [if_pos hm,List.forall_mem_singleton]
        exact iff_of_true hmagic (fun he => absurd he hm)
    rw [hone,hfetch]
    constructor
    · rintro h other heq
      cases heq
      exact h
    · exact fun h => h buffer rfl
  · rename_i hother
    exact iff_of_true (fun _ hm => by cases hm) (fun buffer hf => absurd hf (hother buffer))

end Headers

/-- The bytes of a volume like the sample volume: its file is a program whose
segment lies at offset `0x10000` of the file. -/
def farBytes : List (ℕ×UInt8) :=
  [(12,2),(13,1),(14,1),(16,1),(36,1),(44,2),(510,0x55),(511,0xaa),
    (1024,65),(1025,32),(1026,32),(1027,32),(1028,32),(1029,32),(1030,32),(1031,32),
    (1032,84),(1033,88),(1034,84),(1035,0x20),(1050,3),(1052,121),
    (1536,0x7f),(1537,0x45),(1538,0x4c),(1539,0x46),(1568,64),(1592,1),
    (1600,1),(1604,5),(1610,1),(1618,0x40),(1632,1),(1640,1)]

/-- Its device. -/
def farDevice : BlockDevice where
  image x := (farBytes.lookup x).getD 0
  sectors := 64
  sectors_lt := FatFiles.sampleDevice.sectors_lt

/-- The driver's fields for it. -/
def farVolume : Volume := {FatFiles.sampleVolume with dev := farDevice}

/-- The driver mounts the volume. -/
theorem farVolume_mounted : mount farDevice 0=.ok farVolume := by
  have hread : farDevice.read 0 512 (fun _ => 0)=
      .ok (copy (fun _ => 0) 0 farDevice.image (0*512) 512) :=
    FatFiles.read_sector farDevice (by decide) _
  rw [mount,hread]
  generalize hsector : copy (fun _ => 0) 0 farDevice.image (0*512) 512=sector
  have hfields : (readLE sector 510 2,readLE sector 11 2,readLE sector 13 1,readLE sector 14 2,
      readLE sector 16 1,readLE sector 36 4,readLE sector 44 4)=(0xaa55,512,1,1,1,1,2) := by
    rw [←hsector]
    decide +kernel
  simp only [Prod.mk.injEq] at hfields
  obtain ⟨hsignature,hbytes,hcluster,hreserved,hfats,hfat,hroot⟩ := hfields
  have hbegin : u64 (0+1)=1 := by decide
  have hdata : u64 (1+1*1)=2 := by decide
  simp only [hsignature,hbytes,hcluster,hreserved,hfats,hfat,hroot,hbegin,hdata,ne_eq,
    not_true_eq_false,if_false]
  rfl

/-- The byte of that segment is read behind the end of the buffer. -/
theorem loadElf_not_always_inside :
    ¬∀ (volume : Volume) (sizeHeap readHeap : ℕ→Except Error Memory) (path : List UInt8)
      (out : Memory) (pdpt : ℕ) (manager : MemoryManager),
      (∃ device partitionLba,mount device partitionLba=.ok volume) → FatFiles.Supplied sizeHeap →
      FatFiles.Supplied readHeap → FreshProcess manager pdpt →
      ∀ access∈loadElfAccesses volume sizeHeap readHeap path out pdpt manager,access.Inside := by
  intro h
  have hfar : Access.buffer 0x10000 1∈loadElfAccesses farVolume (fun _ => .ok (fun _ => 0))
      (fun _ => .ok (fun _ => 0)) FatFiles.samplePath (fun _ => 0) 0x100000
      UserPages.sampleProcess := by decide +kernel
  have hinside := h _ _ _ _ _ _ _ ⟨farDevice,0,farVolume_mounted⟩ (fun _ => ⟨_,rfl⟩)
    (fun _ => ⟨_,rfl⟩) sampleProcess_freshProcess _ hfar
  exact absurd hinside (by decide)

end WorkbenchOS.ElfBuffer
