import WorkbenchOS.UserPages
import WorkbenchOS.TransitionRuns

/-!
# Loading a program

`load_elf` reads the file into a kernel buffer and, for every loadable
segment, allocates a block of user pages, clears it and copies the file's
bytes to the kernel address it gets for the block. That address is the first
byte of the first frame: it stands for the segment when its frames come out
consecutive and it begins at a page boundary or has no bytes in the file.
-/

namespace WorkbenchOS.ElfLoader

open ByteMemory LibStd TransitionRuns WordBitmaps FrameBitmap FrameOperations FrameRuns
open PhysicalMemory PageTables MemoryManagement PageMapping UserPages

/-- `ELF_MAGIC`. -/
def elfMagic : ℕ := 0x464c457f

/-- `PT_LOAD`. -/
def ptLoad : ℕ := 1

/-- The fields of `Elf64_Phdr` the loader uses. -/
structure Elf64Phdr where
  /-- `p_type`. -/
  type : ℕ
  /-- `p_flags`. -/
  flags : ℕ
  /-- `p_offset`. -/
  offset : ℕ
  /-- `p_vaddr`. -/
  vaddr : ℕ
  /-- `p_filesz`. -/
  filesz : ℕ
  /-- `p_memsz`. -/
  memsz : ℕ
  deriving DecidableEq

/-- `sizeof(Elf64_Phdr)`. -/
def sizeofElf64Phdr : ℕ := 56

/-- The program header at a place of the buffer. -/
def programHeader (buffer : Memory) (address : ℕ) : Elf64Phdr where
  type := readLE buffer address 4
  flags := readLE buffer (address+4) 4
  offset := readLE buffer (address+8) 8
  vaddr := readLE buffer (address+16) 8
  filesz := readLE buffer (address+32) 8
  memsz := readLE buffer (address+40) 8

/-- The program headers of the file: `e_phnum` of them, from `e_phoff` on. -/
def programHeaders (buffer : Memory) : List Elf64Phdr :=
  (List.range (readLE buffer 56 2)).map
    (fun i => programHeader buffer (readLE buffer 32 8+sizeofElf64Phdr*i))

/-- `load_pages`. -/
def loadPages (header : Elf64Phdr) : ℕ := bytesToPages header.memsz

/-- One iteration of the loop over the program headers. The writes go through
the kernel's direct map; the buffer is no part of the memory written. -/
def loadSegment (buffer : Memory) (pdpt : ℕ) (manager : MemoryManager) (header : Elf64Phdr) :
    Option (Except Error Unit×MemoryManager) :=
  if header.type≠ptLoad then some (.ok (),manager)
  else
    match allocateUserPages manager pdpt header.vaddr (loadPages header)
      ((header.flags&&&2)>>>1≠0) (header.flags&&&1≠0) with
    | none => none
    | some (.error _,after) => some (.error (.fromCode 1),after)
    | some (.ok destination,after) =>
      let physical := u64Sub destination physicalMappingBase
      let cleared := fill after.memory physical (loadPages header*Page) 0
      some (.ok (),{after with memory := copy cleared physical buffer header.offset header.filesz})

/-- The loop over the program headers. -/
def loadSegments (buffer : Memory) (pdpt : ℕ) : List Elf64Phdr→MemoryManager→
    Option (Except Error Unit×MemoryManager)
  | [],manager => some (.ok (),manager)
  | header::rest,manager =>
    match loadSegment buffer pdpt manager header with
    | none => none
    | some (.error error,after) => some (.error error,after)
    | some (.ok _,after) => loadSegments buffer pdpt rest after

/-- `load_elf`, from the buffer `read_file` has filled on. -/
def loadElf (fetched : Except Error Memory) (pdpt : ℕ) (manager : MemoryManager) :
    Option (Except Error Unit×MemoryManager) :=
  match fetched with
  | .error error => some (.error error,manager)
  | .ok buffer =>
    if readLE buffer 0 4≠elfMagic then some (.error (.fromCode 1),manager)
    else loadSegments buffer pdpt (programHeaders buffer) manager

/-- A frame in use that is no page table. -/
def Owned (tables : ℕ→ℕ→Prop) (manager : MemoryManager) (frame : ℕ) : Prop :=
  bitAt manager.bitmap.storage frame=true ∧ ∀ l, ¬tables l (frame*4096)

/-- The bytes of such frames are as they were. -/
def BytesKept (tables : ℕ→ℕ→Prop) (before after : MemoryManager) : Prop :=
  ∀ x, Owned tables before (x/4096) → after.memory x=before.memory x

section Bytes

variable {tables larger : ℕ→ℕ→Prop} {pdpt directory : ℕ} {manager after : MemoryManager}

theorem BytesKept.trans {middle : MemoryManager} (h : BytesKept tables manager middle)
    (ho : ∀ k, Owned tables manager k → Owned larger middle k)
    (k : BytesKept larger middle after) : BytesKept tables manager after :=
  fun x hx => (k x (ho _ hx)).trans (h x hx)

/-- Taking a frame touches only that frame. -/
theorem bytesKept_takeFrame {frame : ℕ} (hf : NextFree manager.bitmap frame) :
    BytesKept tables manager (takeFrame manager frame) := by
  intro x hx
  have hne : x/4096≠frame := by
    intro heq
    have hset := hx.1
    rw [heq,hf.clear] at hset
    cases hset
  refine fill_outside manager.memory 0 ?_
  unfold tableSize
  omega

/-- Storing an entry touches only its table. -/
theorem bytesKept_store (h : TableSystem manager.memory tables) {level table index : ℕ}
    (ht : tables level table) (hi : index<512) (entry : BitVec 64) :
    BytesKept tables manager (manager.store table index entry) := by
  intro x hx
  have ha := h.aligned ht
  unfold tableSize at ha
  have hne : x/4096*4096≠table := by
    intro heq
    have hno := hx.2 level
    rw [heq] at hno
    exact hno ht
  exact writeLE_outside manager.memory (by omega)

/-- Growing tables keeps frames owned. -/
theorem Owned.grown {frame : ℕ} (h : Owned tables manager frame)
    (hg : Grown tables larger directory manager after) : Owned larger after frame :=
  hg.marked h.1 h.2

/-- What leads onward keeps frames owned. -/
theorem Owned.onward {frame : ℕ} (h : Owned tables manager frame)
    (ho : Onward tables larger pdpt directory manager after) : Owned larger after frame :=
  ho.marked h.1 h.2

/-- Storing a page-table entry touches only its page table. -/
theorem bytesKept_page (h : Tabled tables directory manager) {page : ℕ}
    (hp : Present (entryAt manager.memory directory (indexAt 1 page))) (entry : BitVec 64) :
    BytesKept tables manager
      (manager.store (getPhysicalAddress (entryAt manager.memory directory (indexAt 1 page)))
        (indexAt 0 page) entry) := by
  have hi := indexAt_lt 1 page
  rw [getPhysicalAddress_eq (h.narrow _ hi)]
  exact bytesKept_store h.backed.system (h.shape.table_of_present h.backed.system hi hp)
    (indexAt_lt 0 page) entry

/-- What `map_user_page` touches are page tables. -/
theorem mapUserPage_bytes (h : UserDirectory tables pdpt directory manager)
    {physicalAddress page : ℕ} {write execute : Bool} {mapped : Except MemoryManagerError Unit}
    (hm : mapUserPage manager pdpt physicalAddress page write execute=some (mapped,after)) :
    BytesKept tables manager after := by
  have hi := indexAt_lt 1 page
  rw [mapUserPage,h.first_address,virtualAddressToPageDirectoryIndex_eq] at hm
  dsimp only at hm
  rcases ensurePageTable_cases userDirectoryEntry h.tabled.backed.kernel
    h.tabled.backed.geometry directory (indexAt 1 page) with
    ⟨hp,he⟩|⟨-,-,he⟩|⟨habsent,frame,hf,-,he⟩
  · simp only [he,virtualAddressToPageTableIndex_eq] at hm
    split at hm
    · cases hm
    · rw [Option.some.injEq,Prod.mk.injEq] at hm
      rw [← hm.2]
      exact bytesKept_page h.tabled hp _
  · simp only [he,Option.some.injEq,Prod.mk.injEq] at hm
    rw [← hm.2]
    exact fun x _ => rfl
  · obtain ⟨hgrown,hp⟩ := h.tabled.grown_install installs_user hi hf habsent
    have htaken := h.tabled.grown_takeFrame hf
    have hinstalled := (bytesKept_takeFrame hf).trans (fun k hk => hk.grown htaken)
      (bytesKept_store htaken.tabled.backed.system htaken.tabled.shape.member hi
        (userDirectoryEntry (entryAt (takeFrame manager frame).memory directory (indexAt 1 page))
          (frame*4096)))
    simp only [he,virtualAddressToPageTableIndex_eq] at hm
    split at hm
    · cases hm
    · rw [Option.some.injEq,Prod.mk.injEq] at hm
      rw [← hm.2]
      exact hinstalled.trans (fun k hk => hk.grown hgrown) (bytesKept_page hgrown.tabled hp _)

end Bytes

section Pages

variable {tables : ℕ→ℕ→Prop} {pdpt directory virtualBase : ℕ} {write execute : Bool}
  {manager after : MemoryManager} {i start result : ℕ}

/-- The counter of free pages is a 64-bit value. -/
def Counts (manager : MemoryManager) : Prop := manager.bitmap.freePages<2^64

/-- The pages a block of the loop allocates are backed by frames of their own,
and bytes elsewhere stay. -/
theorem loop_pages (n : ℕ) (h : UserDirectory tables pdpt directory manager) (hc : Counts manager)
    (hlow : ∀ j, j<n → virtualBase+(i+j)*4096<2^30)
    (hl : allocateUserPagesLoop pdpt virtualBase write execute n i start manager=
      some (.ok result,after)) :
    ∃ larger, Onward tables larger pdpt directory manager after ∧ Counts after ∧
      BytesKept tables manager after ∧
      ∀ j, j<n → ∀ physical, walkFrom after.memory 2 directory (virtualBase+(i+j)*4096)=
        some physical → Owned larger after (physical/4096) := by
  induction n generalizing tables i start manager with
  | zero =>
    rw [allocateUserPagesLoop,Option.some.injEq,Prod.mk.injEq] at hl
    rw [← hl.2]
    exact ⟨tables,Onward.refl h,hc,fun x _ => rfl,fun j hj => absurd hj (Nat.not_lt_zero j)⟩
  | succ n ih =>
    rcases h.loop_step hl with herror|⟨frame,hf,-,mapped,next,hmap,hrest⟩
    · cases herror
    have hfirst := hlow 0 (Nat.succ_pos n)
    rw [Nat.add_zero] at hfirst
    obtain ⟨htaken,-⟩ := h.takeFrame hf
    have hbytes : BytesKept tables manager next :=
      (bytesKept_takeFrame hf).trans (fun k hk => hk.onward htaken)
        (mapUserPage_bytes htaken.user hmap)
    have hshift := page_succ virtualBase i
    have hcount : Counts next := h.page_counts hf hfirst hmap
    rcases h.page_cases hf hfirst hmap with
      ⟨habsent,hnone,hnext⟩|⟨larger,hon,hwalk,hset,hno,-⟩
    · -- the page has no page table, and there is no frame for another page
      cases n with
      | zero =>
        rw [allocateUserPagesLoop,Option.some.injEq,Prod.mk.injEq] at hrest
        rw [hnext] at hcount
        rw [← hrest.2,hnext]
        refine ⟨tables,htaken,hcount,bytesKept_takeFrame hf,?_⟩
        intro j hj physical hw
        obtain rfl : j=0 := by omega
        rw [Nat.add_zero,(h.tabled.grown_takeFrame hf).walk,walkFrom_absent habsent] at hw
        cases hw
      | succ n =>
        rw [hnext] at hrest
        rw [← takeFrame_bitmap manager frame] at hnone
        exact absurd hrest (htaken.user.loop_exhausted hnone)
    · obtain ⟨largest,hon',hcount',hbytes',howned⟩ := ih hon.user hcount
        (fun j hj => by rw [hshift]; exact hlow (j+1) (by omega)) hrest
      refine ⟨largest,hon.trans hon',hcount',hbytes.trans (fun k hk => hk.onward hon) hbytes',?_⟩
      intro j hj physical hw
      rcases j with _|j
      · rw [Nat.add_zero,hon'.walk _ _ hwalk,Option.some.injEq] at hw
        have hframe : physical/4096=frame := by omega
        rw [hframe]
        exact Owned.onward ⟨hset,hno⟩ hon'
      · rw [← hshift] at hw
        exact howned j (by omega) physical hw

end Pages

section Segments

variable {tables larger : ℕ→ℕ→Prop} {pdpt directory virtualBase kernelAddress : ℕ}
  {write execute : Bool} {manager after : MemoryManager} {buffer : Memory} {header : Elf64Phdr}

/-- A block whose frames come out consecutive: where it lies, whose frames it
has, and what stays as it was. -/
structure BlockAt (tables larger : ℕ→ℕ→Prop) (pdpt directory virtualBase count frame : ℕ)
    (before after : MemoryManager) : Prop where
  /-- The process directory goes on. -/
  onward : Onward tables larger pdpt directory before after
  /-- The counter of free pages fits 64 bits. -/
  counts : Counts after
  /-- Bytes in use stay. -/
  bytes : BytesKept tables before after
  /-- Page `j` lies in frame `frame+j`. -/
  mapped : ∀ j, j<count → walkFrom after.memory 2 directory (virtualBase+j*4096)=
    some ((frame+j)*4096+virtualBase%4096)
  /-- The frames were free. -/
  clear : ∀ j, j<count → bitAt before.bitmap.storage (frame+j)=false
  /-- They belong to the block. -/
  owned : ∀ j, j<count → Owned larger after (frame+j)

/-- The block `allocate_user_pages` maps, under the condition. -/
theorem block_of_contiguous (h : UserDirectory tables pdpt directory manager) (hc : Counts manager)
    {n : ℕ} (hok : allocateUserPages manager pdpt virtualBase (n+1) write execute=
      some (.ok kernelAddress,after))
    (hcontig : Contiguous manager pdpt virtualBase (n+1)) :
    ∃ larger frame, u64Sub kernelAddress physicalMappingBase=frame*4096 ∧
      BlockAt tables larger pdpt directory virtualBase (n+1) frame manager after := by
  obtain ⟨hlast,frame,hcons⟩ := hcontig.resolve_left (Nat.succ_ne_zero n)
  rw [Nat.add_sub_cancel] at hlast
  rw [h.first_address] at hcons
  obtain ⟨start,hkernel,hloop⟩ := loop_of_allocateUserPages hok
  rw [intIterations_min hlast] at hloop
  have hin : virtualBase+(0+n)*4096<2^30 := by rwa [Nat.zero_add]
  obtain ⟨taken,hf,haddress⟩ := h.loop_first hloop
  have heq : taken=frame := hcons.eq_first hf
  obtain ⟨-,-,hiff,-⟩ := h.loop_iff n hc hin hloop frame
  have hm := hiff.mpr hcons
  have hlow : ∀ j, j<n+1 → virtualBase+(0+j)*4096<2^30 := fun j hj =>
    lt_of_le_of_lt (Nat.add_le_add_left (Nat.mul_le_mul_right 4096 (by omega)) _) hin
  obtain ⟨larger,hon,hcounts,hbytes,howned⟩ := loop_pages (n+1) h hc hlow hloop
  refine ⟨larger,frame,by rw [hkernel,haddress,heq],hon,hcounts,hbytes,?_,hcons.clear,?_⟩
  · intro j hj
    have hwalk := hm j hj
    rwa [Nat.zero_add] at hwalk
  · intro j hj
    have hown := howned j hj _ (hm j hj)
    have hframe : ((frame+j)*4096+virtualBase%4096)/4096=frame+j := by omega
    rwa [hframe] at hown

/-- A process directory stays one when frames without tables are written. -/
theorem userDirectory_write (h : UserDirectory tables pdpt directory manager) {memory : Memory}
    {frame count : ℕ} (hno : ∀ j, j<count → ∀ l, ¬tables l ((frame+j)*4096))
    (hsame : ∀ x, ¬(frame*4096≤x ∧ x<frame*4096+count*4096) → memory x=manager.memory x) :
    UserDirectory tables pdpt directory {manager with memory := memory} ∧
      ∀ address, userWalk memory pdpt address=userWalk manager.memory pdpt address := by
  have hno' : ∀ j, j<count → ∀ l, ¬tables l (frame*4096+j*4096) := by
    intro j hj l
    rw [← Nat.add_mul]
    exact hno j hj l
  have haligned : frame*4096%4096=0 := Nat.mul_mod_left frame 4096
  have hentry := h.entryAt_same haligned hno' hsame
  have hb := h.tabled.backed
  have htabled : Tabled tables directory {manager with memory := memory} := by
    refine ⟨⟨hb.kernel,hb.geometry,hb.reach,hb.system.congr hentry,hb.taken⟩,
      h.tabled.shape.congr (fun i hi => hentry 2 directory i h.tabled.shape.member hi),?_⟩
    intro i hi
    exact (congrArg Narrow (hentry 2 directory i h.tabled.shape.member hi)).mpr (h.tabled.narrow i hi)
  refine ⟨h.after_below htabled id (fun ht _ hi => hentry _ _ _ ht hi),?_⟩
  exact h.userWalk_same haligned hno' hsame

/-- Segments that can be in a well-formed file: no more file bytes than
memory, and an end below one gibibyte. -/
structure Sound (header : Elf64Phdr) : Prop where
  /-- `p_filesz` is at most `p_memsz`. -/
  filesz_le : header.filesz≤header.memsz
  /-- User programs lie in the first gibibyte. -/
  low : header.vaddr+header.memsz≤2^30

/-- The byte of a segment at an offset from `p_vaddr`. -/
def expected (buffer : Memory) (header : Elf64Phdr) (k : ℕ) : UInt8 :=
  if k<header.filesz then buffer (header.offset+k) else 0

/-- The segment is in memory, in frames of its own. -/
def Held (buffer : Memory) (pdpt : ℕ) (tables : ℕ→ℕ→Prop) (manager : MemoryManager)
    (header : Elf64Phdr) : Prop :=
  ∀ k, k<header.memsz → ∃ physical, userWalk manager.memory pdpt (header.vaddr+k)=some physical ∧
    Owned tables manager (physical/4096) ∧ manager.memory physical=expected buffer header k

/-- The start of the block stands for the start of the segment: it begins at
a page boundary, or nothing is copied there and the pages reach its end. -/
def Placed (header : Elf64Phdr) : Prop :=
  header.vaddr%4096=0 ∨
    header.filesz=0 ∧ header.vaddr%4096+header.memsz≤loadPages header*4096

/-- The condition under which a segment is loaded right: it needs no memory,
or the block stands for it and its frames come out consecutive. -/
def SegmentFits (pdpt : ℕ) (manager : MemoryManager) (header : Elf64Phdr) : Prop :=
  header.type≠ptLoad ∨ header.memsz=0 ∨
    Placed header ∧ Contiguous manager pdpt header.vaddr (loadPages header)

/-- Pages of a segment below one gibibyte. -/
theorem loadPages_eq (h : Sound header) : loadPages header=(header.memsz+4095)/4096 := by
  have hlow := h.low
  unfold loadPages bytesToPages divideRoundedUp Page
  rw [u64_of_lt (by omega)]

/-- What the loader writes into a block. -/
def written (buffer : Memory) (header : Elf64Phdr) (physical : ℕ) (memory : Memory) : Memory :=
  copy (fill memory physical (loadPages header*Page) 0) physical buffer header.offset header.filesz

/-- The bytes of the block are those of the segment. -/
theorem written_inside (h : Sound header) (memory : Memory) {physical k : ℕ}
    (hk : k<header.memsz) : written buffer header physical memory (physical+k)=
      expected buffer header k := by
  have hpages := loadPages_eq h
  unfold written expected Page
  by_cases hf : k<header.filesz
  · rw [copy_inside _ _ (by omega) (by omega),if_pos hf,Nat.add_sub_cancel_left]
  · rw [if_neg hf,copy_outside _ buffer (by omega),fill_inside _ _ (by omega) (by omega)]

/-- Bytes outside the block stay. -/
theorem written_outside (h : Sound header) (memory : Memory) {physical x : ℕ}
    (hx : ¬(physical≤x ∧ x<physical+loadPages header*4096)) :
    written buffer header physical memory x=memory x := by
  have hpages := loadPages_eq h
  have hfile := h.filesz_le
  unfold written Page
  rw [copy_outside _ buffer (by omega),fill_outside memory 0 (by omega)]

/-- What a loadable segment that was loaded went through. -/
theorem loadSegment_load (ht : header.type=ptLoad)
    (hok : loadSegment buffer pdpt manager header=some (.ok (),after)) :
    ∃ destination middle, allocateUserPages manager pdpt header.vaddr (loadPages header)
        ((header.flags&&&2)>>>1≠0) (header.flags&&&1≠0)=some (.ok destination,middle) ∧
      after={middle with
        memory := written buffer header (u64Sub destination physicalMappingBase) middle.memory} := by
  rw [loadSegment,if_neg (not_not.mpr ht)] at hok
  split at hok
  · cases hok
  · cases hok
  · rename_i destination middle hcall
    rw [Option.some.injEq,Prod.mk.injEq] at hok
    exact ⟨destination,middle,hcall,hok.2.symm⟩

/-- Segments in memory stay there while a block is allocated and written. -/
theorem Held.kept {count frame : ℕ} {memory : Memory} {middle : MemoryManager}
    (hu : UserDirectory tables pdpt directory manager)
    (hb : BlockAt tables larger pdpt directory virtualBase count frame manager middle)
    (hwalk : ∀ address, userWalk memory pdpt address=userWalk middle.memory pdpt address)
    (hsame : ∀ x, ¬(frame*4096≤x ∧ x<frame*4096+count*4096) → memory x=middle.memory x)
    (hlow : header.vaddr+header.memsz≤2^30) (h : Held buffer pdpt tables manager header) :
    Held buffer pdpt larger {middle with memory := memory} header := by
  intro k hk
  obtain ⟨physical,hw,hown,hbyte⟩ := h k hk
  have hin : header.vaddr+k<2^30 := by omega
  have hout : ¬(frame*4096≤physical ∧ physical<frame*4096+count*4096) := by
    rintro ⟨hl,hr⟩
    have hclear := hb.clear (physical/4096-frame) (by omega)
    rw [show frame+(physical/4096-frame)=physical/4096 by omega,hown.1] at hclear
    cases hclear
  have hown' := hown.onward hb.onward
  refine ⟨physical,?_,hown',?_⟩
  · rw [hu.userWalk_low hin] at hw
    rw [hwalk,hb.onward.user.userWalk_low hin]
    exact hb.onward.walk _ _ hw
  · exact (hsame physical hout).trans ((hb.bytes physical hown).trans hbyte)

/-- The pages of a segment that is placed reach its end. -/
theorem Placed.reaches (hp : Placed header) (hs : Sound header) :
    header.vaddr%4096+header.memsz≤loadPages header*4096 := by
  rcases hp with ha|⟨-,hend⟩
  · rw [ha,loadPages_eq hs]
    omega
  · exact hend

/-- The bytes of a segment that is placed lie as far into the block as they lie
behind the page boundary. -/
theorem written_placed (hp : Placed header) (hs : Sound header) (memory : Memory)
    {physical k : ℕ} (hk : k<header.memsz) :
    written buffer header physical memory (physical+(header.vaddr%4096+k))=
      expected buffer header k := by
  rcases hp with ha|⟨hempty,hend⟩
  · rw [ha,Nat.zero_add]
    exact written_inside hs memory hk
  · -- nothing is copied, and the whole block is cleared
    unfold written expected Page
    rw [hempty,if_neg (Nat.not_lt_zero k),copy_outside _ buffer (by omega),
      fill_inside _ _ (by omega) (by omega)]

/-- The page of an address in a block is found where the block has it. -/
theorem BlockAt.walk {count frame k : ℕ} {before middle : MemoryManager}
    (hb : BlockAt tables larger pdpt directory virtualBase count frame before middle)
    (hk : virtualBase%4096+k<count*4096) :
    walkFrom middle.memory 2 directory (virtualBase+k)=
      some (frame*4096+(virtualBase%4096+k)) := by
  have hindex : (virtualBase%4096+k)/4096<count := by omega
  have hmapped := hb.mapped _ hindex
  rw [walkFrom_page] at hmapped ⊢
  have hpage : (virtualBase+(virtualBase%4096+k)/4096*4096)/4096*4096=
      (virtualBase+k)/4096*4096 := by omega
  rw [hpage] at hmapped
  obtain ⟨page,hpage,hat⟩ := Option.map_eq_some_iff.mp hmapped
  rw [hpage,Option.map_some,Option.some.injEq]
  omega

/-- The segment written into its block is in memory. -/
theorem held_written {frame : ℕ} {middle : MemoryManager} (hs : Sound header)
    (hp : Placed header)
    (hb : BlockAt tables larger pdpt directory header.vaddr (loadPages header) frame manager middle)
    (hwalk : ∀ address, userWalk (written buffer header (frame*4096) middle.memory) pdpt address=
      userWalk middle.memory pdpt address) :
    Held buffer pdpt larger {middle with
      memory := written buffer header (frame*4096) middle.memory} header := by
  intro k hk
  have hlow := hs.low
  have hreach := hp.reaches hs
  have hin : header.vaddr+k<2^30 := by omega
  refine ⟨frame*4096+(header.vaddr%4096+k),?_,?_,written_placed hp hs middle.memory hk⟩
  · rw [hwalk,hb.onward.user.userWalk_low hin]
    exact hb.walk (by omega)
  · have hframe : (frame*4096+(header.vaddr%4096+k))/4096=
        frame+(header.vaddr%4096+k)/4096 := by omega
    rw [hframe]
    exact hb.owned _ (by omega)

/-- One segment that fits: the process directory goes on, the segment is in
memory if it is loadable, and the segments loaded before stay. -/
theorem loadSegment_step (h : UserDirectory tables pdpt directory manager) (hc : Counts manager)
    (hs : header.type=ptLoad → Sound header) (hfit : SegmentFits pdpt manager header)
    (hok : loadSegment buffer pdpt manager header=some (.ok (),after)) :
    ∃ larger, UserDirectory larger pdpt directory after ∧ Counts after ∧
      (header.type=ptLoad → Held buffer pdpt larger after header) ∧
      ∀ other : Elf64Phdr, other.vaddr+other.memsz≤2^30 → Held buffer pdpt tables manager other →
        Held buffer pdpt larger after other := by
  by_cases ht : header.type=ptLoad
  · have hsound := hs ht
    obtain ⟨destination,middle,hcall,hafter⟩ := loadSegment_load ht hok
    have hrest := hfit.resolve_left (not_not.mpr ht)
    by_cases hzero : header.memsz=0
    · -- nothing is allocated and nothing is written
      have hpages : loadPages header=0 := by rw [loadPages_eq hsound,hzero]
      have hmemory : written buffer header (u64Sub destination physicalMappingBase) middle.memory=
          middle.memory := by
        refine funext (fun x => written_outside hsound middle.memory ?_)
        omega
      rw [hpages] at hcall
      obtain ⟨start,-,hloop⟩ := loop_of_allocateUserPages hcall
      rw [Nat.zero_min,allocateUserPagesLoop,Option.some.injEq,Prod.mk.injEq] at hloop
      rw [hmemory,← hloop.2] at hafter
      rw [hafter]
      exact ⟨tables,h,hc,fun _ k hk => absurd hk (by omega),fun _ _ hheld => hheld⟩
    · obtain ⟨hplaced,hcontig⟩ := hrest.resolve_left hzero
      obtain ⟨n,hn⟩ : ∃ n,loadPages header=n+1 :=
        ⟨loadPages header-1,by rw [loadPages_eq hsound]; omega⟩
      rw [hn] at hcall hcontig
      obtain ⟨larger,frame,haddress,hblock⟩ := block_of_contiguous h hc hcall hcontig
      rw [haddress] at hafter
      have hsame : ∀ x, ¬(frame*4096≤x ∧ x<frame*4096+(n+1)*4096) →
          written buffer header (frame*4096) middle.memory x=middle.memory x := by
        intro x hx
        rw [← hn] at hx
        exact written_outside hsound middle.memory hx
      obtain ⟨huser,hwalk⟩ := userDirectory_write hblock.onward.user
        (fun j hj => (hblock.owned j hj).2) hsame
      rw [hafter]
      refine ⟨larger,huser,hblock.counts,fun _ => ?_,fun other hlow hheld => ?_⟩
      · rw [← hn] at hblock
        exact held_written hsound hplaced hblock hwalk
      · exact hheld.kept h hblock hwalk hsame hlow
  · rw [loadSegment,if_pos ht,Option.some.injEq,Prod.mk.injEq] at hok
    rw [← hok.2]
    exact ⟨tables,h,hc,fun hload => absurd hload ht,fun _ _ hheld => hheld⟩

end Segments

/-- The state after a segment that was loaded. -/
def loadedSegment (buffer : Memory) (pdpt : ℕ) (manager : MemoryManager) (header : Elf64Phdr) :
    Option MemoryManager :=
  match loadSegment buffer pdpt manager header with
  | some (.ok _,after) => some after
  | _ => none

/-- A successful loop is a run over the segments. -/
theorem run_of_loadSegments {buffer : Memory} {pdpt : ℕ} {headers : List Elf64Phdr}
    {manager after : MemoryManager}
    (hok : loadSegments buffer pdpt headers manager=some (.ok (),after)) :
    run (loadedSegment buffer pdpt) manager headers=some after := by
  induction headers generalizing manager with
  | nil =>
    rw [loadSegments,Option.some.injEq,Prod.mk.injEq] at hok
    rw [run,hok.2]
  | cons header rest ih =>
    rw [loadSegments] at hok
    split at hok
    · cases hok
    · cases hok
    · rename_i value next hstep
      rw [run,loadedSegment,hstep,Option.bind_some]
      exact ih hok

/-- What loading a segment returned. -/
theorem loadSegment_of_loaded {buffer : Memory} {pdpt : ℕ} {header : Elf64Phdr}
    {manager after : MemoryManager}
    (h : loadedSegment buffer pdpt manager header=some after) :
    loadSegment buffer pdpt manager header=some (.ok (),after) := by
  rw [loadedSegment] at h
  split at h
  · rename_i value next hstep
    cases h
    exact hstep
  · cases h

/-- A run over segments that all fit puts every loadable one in memory and
keeps those that were there. -/
theorem run_holds {buffer : Memory} {tables : ℕ→ℕ→Prop} {pdpt directory : ℕ}
    {headers : List Elf64Phdr} {manager after : MemoryManager}
    (h : UserDirectory tables pdpt directory manager) (hc : Counts manager)
    (hs : ∀ header∈headers,header.type=ptLoad → Sound header)
    (hfit : Each (loadedSegment buffer pdpt) (SegmentFits pdpt) manager headers)
    (hrun : run (loadedSegment buffer pdpt) manager headers=some after) :
    ∃ larger, UserDirectory larger pdpt directory after ∧
      (∀ header∈headers,header.type=ptLoad → Held buffer pdpt larger after header) ∧
      ∀ other : Elf64Phdr, other.vaddr+other.memsz≤2^30 → Held buffer pdpt tables manager other →
        Held buffer pdpt larger after other := by
  induction headers generalizing tables manager with
  | nil =>
    cases hrun
    exact ⟨tables,h,by simp,fun _ _ hheld => hheld⟩
  | cons header rest ih =>
    rw [run] at hrun
    obtain ⟨next,hnext,hrest⟩ := Option.bind_eq_some_iff.mp hrun
    obtain ⟨hsound,hsounds⟩ := List.forall_mem_cons.mp hs
    obtain ⟨larger,huser,hcounts,hself,hkept⟩ :=
      loadSegment_step h hc hsound hfit.1 (loadSegment_of_loaded hnext)
    obtain ⟨largest,huser',hheld',hkept'⟩ := ih huser hcounts hsounds (hfit.2 next hnext) hrest
    refine ⟨largest,huser',List.forall_mem_cons.mpr ⟨fun ht => ?_,hheld'⟩,?_⟩
    · exact hkept' header (hsound ht).low (hself ht)
    · exact fun other hlow hheld => hkept' other hlow (hkept other hlow hheld)

/-- An empty process directory, and a counter that fits its field. -/
structure FreshProcess (manager : MemoryManager) (pdpt : ℕ) : Prop where
  /-- No entry of its page directory is in use. -/
  user : ∃ tables directory, UserDirectory tables pdpt directory manager ∧
    ∀ i, i<512 → entryAt manager.memory directory i=0#64
  /-- The counter of free pages fits 64 bits. -/
  counts : Counts manager

/-- Two segments share no page. -/
def PagesApart (first second : Elf64Phdr) : Prop :=
  ∀ k, k<first.memsz → ∀ j, j<second.memsz → (first.vaddr+k)/4096≠(second.vaddr+j)/4096

/-- A well-formed ELF file of this size in the buffer. -/
structure WellFormedElf (buffer : Memory) (size : ℕ) : Prop where
  /-- It fits the buffer of the loader. -/
  size_le : size≤64*1024
  /-- The magic number. -/
  magic : readLE buffer 0 4=elfMagic
  /-- The program headers are in the file. -/
  headers : readLE buffer 32 8+sizeofElf64Phdr*readLE buffer 56 2≤ size
  /-- So are the bytes of its segments. -/
  bytes : ∀ header∈programHeaders buffer,header.type=ptLoad → header.offset+header.filesz≤ size
  /-- Its segments end below one gibibyte and are no smaller than their bytes. -/
  sound : ∀ header∈programHeaders buffer,header.type=ptLoad → Sound header
  /-- No two of them share a page. -/
  apart : (programHeaders buffer).Pairwise (fun first second =>
    first.type=ptLoad → second.type=ptLoad → PagesApart first second)

/-- Every byte of every loadable segment is in user memory. -/
def ImageBuilt (buffer : Memory) (pdpt : ℕ) (after : MemoryManager) : Prop :=
  ∀ header∈programHeaders buffer,header.type=ptLoad → ∀ k, k<header.memsz →
    ∃ physical, userWalk after.memory pdpt (header.vaddr+k)=some physical ∧
      after.memory physical=expected buffer header k

/-- The memory image is the one the file describes when every loadable
segment that needs memory gets consecutive frames and begins at a page boundary
or has no bytes in the file. -/
theorem loadElf_builds_image {buffer : Memory} {size pdpt : ℕ} {manager after : MemoryManager}
    (hfresh : FreshProcess manager pdpt) (hw : WellFormedElf buffer size)
    (hok : loadElf (.ok buffer) pdpt manager=some (.ok (),after))
    (hfit : Each (loadedSegment buffer pdpt) (SegmentFits pdpt) manager (programHeaders buffer)) :
    ImageBuilt buffer pdpt after := by
  obtain ⟨tables,directory,huser,-⟩ := hfresh.user
  have hloop : loadSegments buffer pdpt (programHeaders buffer) manager=some (.ok (),after) := by
    simp only [loadElf,hw.magic,ne_eq,not_true_eq_false,if_false] at hok
    exact hok
  obtain ⟨larger,-,hheld,-⟩ := run_holds huser hfresh.counts hw.sound hfit
    (run_of_loadSegments hloop)
  intro header hm ht k hk
  obtain ⟨physical,hwalk,-,hbyte⟩ := hheld header hm ht k hk
  exact ⟨physical,hwalk,hbyte⟩

/-- The bytes of a small file other than zeros: one loadable segment of one
byte, at `0x400000` and the given offset. -/
def sampleBytes (low : UInt8) : List (ℕ×UInt8) :=
  [(0,0x7f),(1,0x45),(2,0x4c),(3,0x46),(32,64),(56,1),
    (64,1),(68,5),(72,120),(80,low),(82,0x40),(96,1),(104,1),(120,0x90)]

/-- The file in the buffer. -/
def sampleFile (low : UInt8) : Memory := fun x => ((sampleBytes low).lookup x).getD 0

/-- Its segment. -/
def sampleHeader (low : UInt8) : Elf64Phdr := ⟨1,5,120,0x400000+low.toNat,1,1⟩

/-- The sample process is fresh. -/
theorem sampleProcess_freshProcess : FreshProcess sampleProcess 0x100000 :=
  ⟨sampleProcess_fresh,by unfold Counts; decide +kernel⟩

/-- The program headers of the sample files. -/
theorem sampleFile_headers {low : UInt8} (hl : low=0 ∨ low=16) :
    programHeaders (sampleFile low)=[sampleHeader low] := by
  rcases hl with rfl|rfl
  · decide +kernel
  · decide +kernel

/-- The sample files are well formed, at a page boundary or not. -/
theorem sampleFile_wellFormed {low : UInt8} (hl : low=0 ∨ low=16) :
    WellFormedElf (sampleFile low) 121 := by
  have hheaders := sampleFile_headers hl
  have hlow : low.toNat≤16 := by
    rcases hl with rfl|rfl
    · decide
    · decide
  refine ⟨by decide,?_,?_,?_,?_,?_⟩
  · rcases hl with rfl|rfl
    · decide +kernel
    · decide +kernel
  · rcases hl with rfl|rfl
    · decide +kernel
    · decide +kernel
  · rw [hheaders]
    simp [sampleHeader]
  · rw [hheaders]
    intro header hm _
    rw [List.mem_singleton.mp hm]
    exact ⟨Nat.le_refl 1,by simp only [sampleHeader]; omega⟩
  · rw [hheaders]
    exact List.pairwise_singleton _ _

/-- What a load leaves at an address, and where that is. -/
def probeByte (pdpt address physical : ℕ) (outcome : Except Error Unit×MemoryManager) :
    Bool×Option ℕ×UInt8 :=
  (outcome.1.toOption.isSome,userWalk outcome.2.memory pdpt address,outcome.2.memory physical)

/-- What a probed load returned. -/
theorem probeByte_eq {pdpt address physical : ℕ} {walk : Option ℕ} {byte : UInt8}
    {call : Option (Except Error Unit×MemoryManager)}
    (h : call.map (probeByte pdpt address physical)=some (true,walk,byte)) :
    ∃ after, call=some (.ok (),after) ∧ userWalk after.memory pdpt address=walk ∧
      after.memory physical=byte := by
  obtain ⟨⟨returned,after⟩,hcall,hprobe⟩ := Option.map_eq_some_iff.mp h
  rw [probeByte,Prod.mk.injEq,Prod.mk.injEq] at hprobe
  obtain ⟨hreturned,hwalk,hbyte⟩ := hprobe
  cases returned with
  | error error => cases hreturned
  | ok value => exact ⟨after,hcall,hwalk,hbyte⟩

/-- A segment of one page in a fresh process, at a page boundary. -/
theorem loadElf_builds_sample : ∃ after,
    loadElf (.ok (sampleFile 0)) 0x100000 sampleProcess=some (.ok (),after) ∧
      ImageBuilt (sampleFile 0) 0x100000 after := by
  have hprobe : (loadElf (.ok (sampleFile 0)) 0x100000 sampleProcess).map
      (probeByte 0x100000 0x400000 0x102000)=some (true,some 0x102000,0x90) := by decide +kernel
  obtain ⟨after,hok,-,-⟩ := probeByte_eq hprobe
  have hl : (0 : UInt8)=0 ∨ (0 : UInt8)=16 := Or.inl rfl
  refine ⟨after,hok,loadElf_builds_image sampleProcess_freshProcess (sampleFile_wellFormed hl) hok ?_⟩
  rw [sampleFile_headers hl]
  have hpages : loadPages (sampleHeader 0)=1 := by decide
  refine ⟨Or.inr (Or.inr ⟨Or.inl (by decide),Or.inr ⟨by decide,258,?_⟩⟩),fun _ _ => trivial⟩
  rw [hpages]
  refine ⟨by decide +kernel,by decide +kernel,by decide +kernel,fun j hj => absurd hj (by omega),?_⟩
  intro j hj
  obtain rfl : j=0 := by omega
  exact Or.inr ⟨by decide +kernel,259,by decide,by decide +kernel,by decide +kernel⟩

/-- The same segment 16 bytes behind the page boundary: its byte is copied to
the start of the page. -/
theorem loadElf_not_always_builds : ¬∀ (buffer : Memory) (size pdpt : ℕ)
    (manager after : MemoryManager), FreshProcess manager pdpt → WellFormedElf buffer size →
    loadElf (.ok buffer) pdpt manager=some (.ok (),after) → ImageBuilt buffer pdpt after := by
  intro hall
  have hprobe : (loadElf (.ok (sampleFile 16)) 0x100000 sampleProcess).map
      (probeByte 0x100000 0x400010 0x102010)=some (true,some 0x102010,0) := by decide +kernel
  obtain ⟨after,hok,hwalk,hbyte⟩ := probeByte_eq hprobe
  have hl : (16 : UInt8)=0 ∨ (16 : UInt8)=16 := Or.inr rfl
  have himage := hall _ _ _ _ _ sampleProcess_freshProcess (sampleFile_wellFormed hl) hok
  have hm : sampleHeader 16∈programHeaders (sampleFile 16) := by
    rw [sampleFile_headers hl]
    exact List.mem_singleton_self _
  obtain ⟨physical,hw,hb⟩ := himage _ hm rfl 0 (by decide)
  have haddress : (sampleHeader 16).vaddr+0=0x400010 := by decide
  rw [haddress,hwalk,Option.some.injEq] at hw
  have hexpected : expected (sampleFile 16) (sampleHeader 16) 0=0x90 := by decide +kernel
  rw [← hw,hbyte,hexpected] at hb
  exact absurd hb (by decide)

end WorkbenchOS.ElfLoader
