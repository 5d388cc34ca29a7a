import WorkbenchOS.MemoryManagement

/-!
# Mapping pages

What the mapping functions of the memory manager share. Frames come from the
bitmap lowest first and are zeroed, so a fresh frame is an empty page table.
A page table is installed under a directory entry without changing any
translation, and a page-table entry that is stored maps exactly one page.
-/

namespace WorkbenchOS.PageMapping

open ByteMemory LibStd WordBitmaps FrameBitmap FrameOperations FrameRuns PhysicalMemory
open PageTables MemoryManagement

/-- The frame the allocator takes next. -/
structure NextFree (bitmap : Bitmap) (frame : ℕ) : Prop where
  /-- It is tracked. -/
  tracked : frame<frames bitmap
  /-- It is clear. -/
  clear : bitAt bitmap.storage frame=false
  /-- All lower frames are marked. -/
  lowest : ∀ j, j<frame → bitAt bitmap.storage j=true

/-- The frame taken next is unique. -/
theorem NextFree.unique {bitmap : Bitmap} {first second : ℕ} (h : NextFree bitmap first)
    (hclear : bitAt bitmap.storage second=false)
    (hlow : ∀ k, k<second → bitAt bitmap.storage k=true) : first=second := by
  rcases Nat.lt_trichotomy first second with hlt|heq|hlt
  · have hset := hlow first hlt
    rw [h.clear] at hset
    cases hset
  · exact heq
  · have hset := h.lowest second hlt
    rw [hclear] at hset
    cases hset

/-- Above a frame that is marked the bitmap is as it was. -/
theorem bitAt_markFrame_above {bitmap : Bitmap} {frame k : ℕ} (hk : frame<k) :
    bitAt (markFrame bitmap frame).storage k=bitAt bitmap.storage k := by
  rw [bitAt_markFrame,decide_eq_false (by omega),Bool.or_false]

/-- Up to the frame that is taken next all frames are marked afterwards. -/
theorem NextFree.marked_below {bitmap : Bitmap} {frame : ℕ} (hf : NextFree bitmap frame) :
    ∀ k,k<frame+1 → bitAt (markFrame bitmap frame).storage k=true := by
  intro k hk
  rw [bitAt_markFrame]
  by_cases heq : k=frame
  · rw [decide_eq_true heq,Bool.or_true]
  · rw [hf.lowest k (by omega),Bool.true_or]

/-- No frame can be taken. -/
def Exhausted (bitmap : Bitmap) : Prop :=
  bitmap.freePages=0 ∨ ∀ j, j<frames bitmap → bitAt bitmap.storage j=true

/-- What holds of the frame taken next is a fact about one frame. -/
theorem NextFree.forall_iff {bitmap : Bitmap} {frame : ℕ} (h : NextFree bitmap frame)
    {P : ℕ→Prop} : (∀ other,NextFree bitmap other → P other) ↔ P frame := by
  constructor
  · exact fun hall => hall frame h
  · intro hframe other ho
    rwa [ho.unique h.clear h.lowest]

/-- No frame is taken next when none can be taken. -/
theorem Exhausted.not_nextFree {bitmap : Bitmap} {frame : ℕ} (h : Exhausted bitmap)
    (hfree : bitmap.freePages≠0) : ¬NextFree bitmap frame := by
  intro hf
  have hset := h.resolve_left hfree frame hf.tracked
  rw [hf.clear] at hset
  cases hset

/-- The manager with one more frame marked and zeroed. -/
def takeFrame (manager : MemoryManager) (frame : ℕ) : MemoryManager :=
  {manager with
    bitmap := markFrame manager.bitmap frame
    memory := fill manager.memory (frame*4096) tableSize 0}

/-- Only bitmap and memory differ. -/
structure SameRest (before after : MemoryManager) : Prop where
  /-- Same heap address space. -/
  heapSpace_eq : after.heapSpace=before.heapSpace
  /-- Same kernel page directory. -/
  directory_eq : after.kernelPageDirectory=before.kernelPageDirectory
  /-- Same root. -/
  root_eq : after.pml4=before.pml4
  /-- Same record of mapped pages. -/
  mapped_eq : after.mapped=before.mapped

theorem SameRest.refl (manager : MemoryManager) : SameRest manager manager := ⟨rfl,rfl,rfl,rfl⟩

theorem SameRest.trans {first second third : MemoryManager} (h : SameRest first second)
    (k : SameRest second third) : SameRest first third :=
  ⟨k.heapSpace_eq.trans h.heapSpace_eq,k.directory_eq.trans h.directory_eq,
    k.root_eq.trans h.root_eq,k.mapped_eq.trans h.mapped_eq⟩

theorem sameRest_takeFrame (manager : MemoryManager) (frame : ℕ) :
    SameRest manager (takeFrame manager frame) := by
  constructor <;> rw [takeFrame]

theorem sameRest_store (manager : MemoryManager) (table index : ℕ) (entry : BitVec 64) :
    SameRest manager (manager.store table index entry) := by
  constructor <;> rw [MemoryManager.store]

/-- A frame taken is the only bit that changes. -/
theorem takeFrame_bitmap (manager : MemoryManager) (frame : ℕ) :
    (takeFrame manager frame).bitmap=markFrame manager.bitmap frame := by
  rw [takeFrame]

/-- Stores leave the bitmap alone. -/
theorem store_bitmap (manager : MemoryManager) (table index : ℕ) (entry : BitVec 64) :
    (manager.store table index entry).bitmap=manager.bitmap := by
  rw [MemoryManager.store]

/-- Marking a frame keeps the managed frames. -/
theorem sameShape_markFrame (bitmap : Bitmap) (frame : ℕ) :
    SameShape bitmap (markFrame bitmap frame) := sameShape_with _ _ _

/-- Everything `allocate_physical_page` can do. -/
theorem allocateFrame_cases {manager : MemoryManager} (hk : KernelBitmap manager.bitmap)
    (hg : Geometry manager.bitmap) :
    (allocateFrame manager=(.error .allocatorError,manager) ∧ Exhausted manager.bitmap) ∨
    ∃ frame, NextFree manager.bitmap frame ∧ manager.bitmap.freePages≠0 ∧
      allocateFrame manager=(.ok (frame*4096),takeFrame manager frame) := by
  rcases allocate_cases hg manager.memory with ⟨error,he,hnone⟩|⟨frame,hlt,hclear,hlow,hfree,he⟩
  · refine Or.inl ⟨?_,hnone⟩
    simp only [allocateFrame,allocatePhysicalPage,he]
  · refine Or.inr ⟨frame,⟨hlt,hclear,hlow⟩,hfree,?_⟩
    have haddress : frameAddress manager.bitmap frame=frame*4096 := by
      have hsize := hg.size_lt
      rw [hk.page_eq] at hsize
      unfold frameAddress
      rw [hk.base_eq,hk.page_eq,u64_of_lt (by omega),Nat.zero_add]
    simp only [allocateFrame,allocatePhysicalPage,he,takeFrame,haddress,hk.page_eq,tableSize]

/-- Nine bits of an address, by mask and shift. -/
theorem mask_shift (address low : ℕ) :
    (address &&& (511*2^low)) >>> low=address/2^low%512 := by
  rw [Nat.shiftRight_and_distrib,Nat.shiftRight_eq_div_pow,Nat.shiftRight_eq_div_pow,
    Nat.mul_div_cancel _ (Nat.two_pow_pos low),show (511 : ℕ)=2^9-1 by norm_num,
    Nat.and_two_pow_sub_one_eq_mod]

/-- The page table index is the hardware's, and never an error. -/
theorem virtualAddressToPageTableIndex_eq (address : ℕ) :
    virtualAddressToPageTableIndex address=.ok (indexAt 0 address) := by
  have hmask : (address &&& 0x1ff000) >>> 12=indexAt 0 address := mask_shift address 12
  have hlt := indexAt_lt 0 address
  unfold virtualAddressToPageTableIndex
  dsimp only
  rw [hmask,if_neg (by omega)]

/-- The directory index is the hardware's, and never an error. -/
theorem virtualAddressToPageDirectoryIndex_eq (address : ℕ) :
    virtualAddressToPageDirectoryIndex address=.ok (indexAt 1 address) := by
  have hmask : (address &&& 0x3fe00000) >>> 21=indexAt 1 address := mask_shift address 21
  have hlt := indexAt_lt 1 address
  unfold virtualAddressToPageDirectoryIndex
  dsimp only
  rw [hmask,if_neg (by omega)]

/-- Below 2^19 the product of the loops does not overflow. -/
theorem intPageOffset_eq {i : ℕ} (hi : i<2^19) : intPageOffset i=i*4096 := by
  unfold intPageOffset
  rw [Nat.mod_eq_of_lt (by omega)]
  exact if_pos (by omega)

/-- The entry of page `i` is that of its address without the wraps. -/
theorem indexAt_pageOffset {level : ℕ} (hl : level<2) (address i : ℕ) :
    indexAt level (u64 (address+intPageOffset i))=indexAt level (address+i*Page) := by
  obtain rfl|rfl : level=0 ∨ level=1 := by omega
  · unfold indexAt u64 intPageOffset Page
    dsimp only
    split <;> norm_num <;> omega
  · unfold indexAt u64 intPageOffset Page
    dsimp only
    split <;> norm_num <;> omega

/-- The bits between the 28-bit page number and bit 52 are zero. -/
def Narrow (entry : BitVec 64) : Prop := getField entry 40 12=0

/-- In a narrow entry, the kernel reads the address the hardware reads. -/
theorem getPhysicalAddress_eq {entry : BitVec 64} (h : Narrow entry) :
    getPhysicalAddress entry=target entry := by
  have hsplit := getField_split entry (show 12+(28+12)≤64 by decide)
  unfold Narrow at h
  unfold getPhysicalAddress target
  rw [hsplit,h,Nat.mul_zero,Nat.add_zero]

/-- The stores make a directory entry lead to the page table. -/
def Installs (stores : BitVec 64→ℕ→BitVec 64) : Prop :=
  ∀ entry pageTable, ¬Large entry → Narrow entry → pageTable%4096=0 → pageTable<2^40 →
    Present (stores entry pageTable) ∧ ¬Large (stores entry pageTable) ∧
      Narrow (stores entry pageTable) ∧ target (stores entry pageTable)=pageTable

/-- An entry is installed by its page number once the flags are set. -/
theorem installs_of_flags {entry flags : BitVec 64} {pageTable : ℕ} (hp : Present flags)
    (hl : getField flags 7 1=getField entry 7 1) (hn : getField flags 40 12=getField entry 40 12)
    (hlarge : ¬Large entry) (hnarrow : Narrow entry) (ha : pageTable%4096=0)
    (hlt : pageTable<2^40) :
    Present (setField flags 12 28 (pageTable >>> 12)) ∧
      ¬Large (setField flags 12 28 (pageTable >>> 12)) ∧
      Narrow (setField flags 12 28 (pageTable >>> 12)) ∧
      target (setField flags 12 28 (pageTable >>> 12))=pageTable := by
  have hfield : Narrow (setField flags 12 28 (pageTable >>> 12)) := by
    unfold Narrow
    rw [getField_setField_apart _ (by decide) (by decide),hn]
    exact hnarrow
  refine ⟨?_,?_,hfield,?_⟩
  · exact (present_setField_apart _ (by decide)).mpr hp
  · unfold Large
    rw [getField_setField_apart _ (by decide) (by decide),hl]
    exact hlarge
  · rw [← getPhysicalAddress_eq hfield]
    unfold getPhysicalAddress
    rw [getField_setField_self _ (by decide),Nat.shiftRight_eq_div_pow,
      Nat.mod_eq_of_lt (by omega)]
    omega

/-- The kernel's directory stores. -/
theorem installs_kernel : Installs kernelDirectoryEntry := by
  intro entry pageTable hlarge hnarrow ha hlt
  refine installs_of_flags ?_ ?_ ?_ hlarge hnarrow ha hlt
  · exact (present_setField_apart _ (by decide)).mpr (present_setField_self entry)
  · rw [getField_setField_apart _ (by decide) (by decide),
      getField_setField_apart _ (by decide) (by decide)]
  · rw [getField_setField_apart _ (by decide) (by decide),
      getField_setField_apart _ (by decide) (by decide)]

/-- The user's directory stores. -/
theorem installs_user : Installs userDirectoryEntry := by
  intro entry pageTable hlarge hnarrow ha hlt
  refine installs_of_flags ?_ ?_ ?_ hlarge hnarrow ha hlt
  · rw [present_setField_apart _ (by decide),present_setField_apart _ (by decide)]
    exact present_setField_self entry
  · rw [getField_setField_apart _ (by decide) (by decide),
      getField_setField_apart _ (by decide) (by decide),
      getField_setField_apart _ (by decide) (by decide)]
  · rw [getField_setField_apart _ (by decide) (by decide),
      getField_setField_apart _ (by decide) (by decide),
      getField_setField_apart _ (by decide) (by decide)]

/-- A page-table entry maps its frame once the flags are set. -/
theorem maps_of_flags {flags : BitVec 64} {physicalAddress : ℕ} (hp : Present flags)
    (ha : physicalAddress%4096=0) (hlt : physicalAddress<2^52) :
    Present (setField flags 12 40 (physicalAddress >>> 12)) ∧
      target (setField flags 12 40 (physicalAddress >>> 12))=physicalAddress := by
  refine ⟨?_,?_⟩
  · exact (present_setField_apart _ (by decide)).mpr hp
  · unfold target
    rw [getField_setField_self _ (by decide),Nat.shiftRight_eq_div_pow,
      Nat.mod_eq_of_lt (by omega)]
    omega

/-- The kernel's page-table stores. -/
theorem kernelTableEntry_maps (entry : BitVec 64) {physicalAddress : ℕ}
    (ha : physicalAddress%4096=0) (hlt : physicalAddress<2^52) :
    Present (kernelTableEntry entry physicalAddress) ∧
      target (kernelTableEntry entry physicalAddress)=physicalAddress := by
  refine maps_of_flags ?_ ha hlt
  exact (present_setField_apart _ (by decide)).mpr (present_setField_self entry)

/-- The user's page-table stores. -/
theorem userTableEntry_maps (entry : BitVec 64) {physicalAddress : ℕ} (write execute : Bool)
    (ha : physicalAddress%4096=0) (hlt : physicalAddress<2^52) :
    Present (userTableEntry entry physicalAddress write execute) ∧
      target (userTableEntry entry physicalAddress write execute)=physicalAddress := by
  refine maps_of_flags ?_ ha hlt
  rw [present_setField_apart _ (by decide),present_setField_apart _ (by decide),
    present_setField_apart _ (by decide)]
  exact present_setField_self entry

/-- Allocator and tables agree: no table lies in a frame that can still be
taken, and all frames are within reach of the direct map. -/
structure Backed (tables : ℕ→ℕ→Prop) (manager : MemoryManager) : Prop where
  /-- Four-kilobyte frames from address zero. -/
  kernel : KernelBitmap manager.bitmap
  /-- Sizes are those `init` establishes. -/
  geometry : Geometry manager.bitmap
  /-- The bootloader's direct map reaches 512 GiB. -/
  reach : frames manager.bitmap*4096≤2^39
  /-- Tables are well formed. -/
  system : TableSystem manager.memory tables
  /-- No clear frame is a table. -/
  taken : ∀ {level frame : ℕ}, frame<frames manager.bitmap →
    bitAt manager.bitmap.storage frame=false → ¬tables level (frame*4096)

/-- A directory the memory manager works on. -/
structure Tabled (tables : ℕ→ℕ→Prop) (directory : ℕ) (manager : MemoryManager) : Prop where
  /-- Allocator and tables agree. -/
  backed : Backed tables manager
  /-- It is a directory of small pages. -/
  shape : Directory manager.memory tables directory
  /-- Its entries fit the 28 bits the kernel reads. -/
  narrow : ∀ i, i<512 → Narrow (entryAt manager.memory directory i)

section Frames

variable {tables : ℕ→ℕ→Prop} {directory : ℕ} {manager : MemoryManager} {frame : ℕ}

/-- Only the bitmap and the memory matter. -/
theorem Tabled.of_same {other : MemoryManager} (h : Tabled tables directory manager)
    (hb : other.bitmap=manager.bitmap) (hm : other.memory=manager.memory) :
    Tabled tables directory other := by
  refine ⟨⟨?_,?_,?_,?_,?_⟩,?_,?_⟩
  · rw [hb]
    exact h.backed.kernel
  · rw [hb]
    exact h.backed.geometry
  · rw [hb]
    exact h.backed.reach
  · rw [hm]
    exact h.backed.system
  · rw [hb]
    exact h.backed.taken
  · rw [hm]
    exact h.shape
  · rw [hm]
    exact h.narrow

/-- Taking a frame changes no entry of a table. -/
theorem Backed.entryAt_takeFrame (h : Backed tables manager) (hf : NextFree manager.bitmap frame)
    {level table index : ℕ} (ht : tables level table) (hi : index<512) :
    entryAt (takeFrame manager frame).memory table index=entryAt manager.memory table index := by
  refine entryAt_fill_other manager.memory 0 hi (Nat.mul_mod_left _ _) (h.system.aligned ht) ?_
  rintro rfl
  exact h.taken hf.tracked hf.clear ht

/-- Taking a frame keeps allocator and tables in agreement. -/
theorem Backed.takeFrame (h : Backed tables manager) (hf : NextFree manager.bitmap frame) :
    Backed tables (takeFrame manager frame) := by
  have hshape := sameShape_markFrame manager.bitmap frame
  refine ⟨⟨hshape.page_eq.trans h.kernel.page_eq,hshape.full_eq.trans h.kernel.full_eq,
    hshape.base_eq.trans h.kernel.base_eq⟩,hshape.geometry h.geometry,?_,?_,?_⟩
  · exact (congrArg (· * 4096) hshape.frames_eq).trans_le h.reach
  · exact h.system.congr (fun _ _ _ ht hi => h.entryAt_takeFrame hf ht hi)
  · intro level k hk hclear
    have hbit := bitAt_markFrame manager.bitmap frame k
    have hfalse : bitAt (markFrame manager.bitmap frame).storage k=false := hclear
    rw [hbit,Bool.or_eq_false_iff] at hfalse
    exact h.taken (hk.trans_eq hshape.frames_eq) hfalse.1

/-- Taking a frame keeps the directory. -/
theorem Tabled.takeFrame (h : Tabled tables directory manager)
    (hf : NextFree manager.bitmap frame) : Tabled tables directory (takeFrame manager frame) := by
  have he : ∀ i, i<512 → entryAt (PageMapping.takeFrame manager frame).memory directory i=
      entryAt manager.memory directory i :=
    fun i hi => h.backed.entryAt_takeFrame hf h.shape.member hi
  refine ⟨h.backed.takeFrame hf,h.shape.congr he,?_⟩
  intro i hi
  rw [he i hi]
  exact h.narrow i hi

/-- Everything the preparation of a directory entry can do. A table that is
installed lies in the next free frame. -/
theorem ensurePageTable_cases (stores : BitVec 64→ℕ→BitVec 64)
    (hk : KernelBitmap manager.bitmap) (hg : Geometry manager.bitmap) (directory index : ℕ) :
    (Present (entryAt manager.memory directory index) ∧
      ensurePageTable stores manager directory index=(.ok (),manager)) ∨
    (¬Present (entryAt manager.memory directory index) ∧ Exhausted manager.bitmap ∧
      ensurePageTable stores manager directory index=(.error .allocatorError,manager)) ∨
    (¬Present (entryAt manager.memory directory index) ∧ ∃ frame,
      NextFree manager.bitmap frame ∧ manager.bitmap.freePages≠0 ∧
      ensurePageTable stores manager directory index=
        (.ok (),(PageMapping.takeFrame manager frame).store directory index
          (stores (entryAt (PageMapping.takeFrame manager frame).memory directory index)
            (frame*4096)))) := by
  by_cases hp : Present (entryAt manager.memory directory index)
  · exact Or.inl ⟨hp,by rw [ensurePageTable,if_pos hp]⟩
  · rcases allocateFrame_cases hk hg with ⟨he,hnone⟩|⟨frame,hf,hfree,he⟩
    · exact Or.inr (Or.inl ⟨hp,hnone,by rw [ensurePageTable,if_neg hp,he]⟩)
    · exact Or.inr (Or.inr ⟨hp,frame,hf,hfree,by rw [ensurePageTable,if_neg hp,he]⟩)

end Frames

/-- The tables grew without a change to any translation of the directory. -/
structure Grown (tables larger : ℕ→ℕ→Prop) (directory : ℕ) (before after : MemoryManager) :
    Prop where
  /-- The directory is well formed again. -/
  tabled : Tabled larger directory after
  /-- No table was given up. -/
  subset : ∀ {level table : ℕ}, tables level table → larger level table
  /-- Entries that were present are as they were. -/
  kept : PresentKept before.memory after.memory tables
  /-- Tables above the directory are as they were. -/
  upper : ∀ {level table i : ℕ}, tables level table → 3≤level → i<512 →
    entryAt after.memory table i=entryAt before.memory table i
  /-- No frame that was in use became a table. -/
  marked : ∀ {k : ℕ}, bitAt before.bitmap.storage k=true → (∀ l, ¬tables l (k*4096)) →
    bitAt after.bitmap.storage k=true ∧ ∀ l, ¬larger l (k*4096)
  /-- Every translation is as it was. -/
  walk : ∀ address, walkFrom after.memory 2 directory address=
    walkFrom before.memory 2 directory address

section Growth

variable {tables larger : ℕ→ℕ→Prop} {directory : ℕ} {manager : MemoryManager} {frame index : ℕ}

/-- Nothing changed. -/
theorem Grown.refl (h : Tabled tables directory manager) :
    Grown tables tables directory manager manager :=
  ⟨h,id,fun _ _ _ _ _ _ => rfl,fun _ _ _ => rfl,fun hb ht => ⟨hb,ht⟩,fun _ => rfl⟩

/-- Taking a frame changes no translation. -/
theorem Tabled.grown_takeFrame (h : Tabled tables directory manager)
    (hf : NextFree manager.bitmap frame) :
    Grown tables tables directory manager (PageMapping.takeFrame manager frame) := by
  have he : ∀ level table i, tables level table → i<512 →
      entryAt (PageMapping.takeFrame manager frame).memory table i=
        entryAt manager.memory table i :=
    fun _ _ _ ht hi => h.backed.entryAt_takeFrame hf ht hi
  refine ⟨h.takeFrame hf,id,fun l t i ht hi _ => he l t i ht hi,
    fun ht _ hi => he _ _ _ ht hi,?_,?_⟩
  · intro k hb ht
    rw [takeFrame_bitmap,bitAt_markFrame,hb,Bool.true_or]
    exact ⟨rfl,ht⟩
  · intro address
    rw [(h.takeFrame hf).shape.walk_eq,h.shape.walk_eq,
      he 2 directory _ h.shape.member (indexAt_lt 1 address)]
    by_cases hp : Present (entryAt manager.memory directory (indexAt 1 address))
    · have ht := h.shape.table_of_present h.backed.system (indexAt_lt 1 address) hp
      rw [he 1 _ _ ht (indexAt_lt 0 address)]
    · rw [if_neg hp,if_neg hp]

/-- A frame just taken is an empty table. -/
theorem takeFrame_empty (manager : MemoryManager) (frame : ℕ) {i : ℕ} (hi : i<512) :
    entryAt (PageMapping.takeFrame manager frame).memory (frame*4096) i=0#64 :=
  entryAt_fill_self manager.memory hi

/-- The frames still clear are no tables when it becomes one. -/
theorem Backed.taken_withTable (h : Backed tables manager) (hf : NextFree manager.bitmap frame)
    (level : ℕ) {l k : ℕ} (hk : k<frames (PageMapping.takeFrame manager frame).bitmap)
    (hclear : bitAt (PageMapping.takeFrame manager frame).bitmap.storage k=false) :
    ¬withTable tables level (frame*4096) l (k*4096) := by
  rintro (ht|⟨-,heq⟩)
  · exact (h.takeFrame hf).taken hk hclear ht
  · have hkf : k=frame := Nat.eq_of_mul_eq_mul_right (by decide) heq
    rw [takeFrame_bitmap,bitAt_markFrame,Bool.or_eq_false_iff,decide_eq_false_iff_not] at hclear
    exact hclear.2 hkf

/-- Entries of the directory that fit the kernel's 28 bits do so after the
store of one that fits. -/
theorem Tabled.narrow_store (h : Tabled tables directory manager) (hi : index<512)
    {entry : BitVec 64} (hn : Narrow entry) {i : ℕ} (hi' : i<512) :
    Narrow (entryAt (manager.store directory index entry).memory directory i) := by
  have hdirectory := h.backed.system.aligned h.shape.member
  by_cases heq : i=index
  · rw [heq]
    exact (congrArg Narrow (entryAt_setEntry_self _ _)).mpr hn
  · have hother : entryAt (manager.store directory index entry).memory directory i=
        entryAt manager.memory directory i :=
      entryAt_setEntry_other manager.memory entry hi hi' hdirectory hdirectory (Or.inr heq)
    rw [hother]
    exact h.narrow i hi'

/-- Installing a frame that was just taken as a page table changes no
translation. -/
theorem Tabled.grown_install (h : Tabled tables directory manager)
    {stores : BitVec 64→ℕ→BitVec 64} (hstores : Installs stores) (hi : index<512)
    (hf : NextFree manager.bitmap frame)
    (habsent : ¬Present (entryAt manager.memory directory index)) :
    Grown tables (withTable tables 1 (frame*4096)) directory manager
        ((PageMapping.takeFrame manager frame).store directory index
          (stores (entryAt (PageMapping.takeFrame manager frame).memory directory index)
            (frame*4096))) ∧
      Present (entryAt ((PageMapping.takeFrame manager frame).store directory index
        (stores (entryAt (PageMapping.takeFrame manager frame).memory directory index)
          (frame*4096))).memory directory index) := by
  have hgrown := h.grown_takeFrame hf
  have htaken := hgrown.tabled
  have hreach := h.backed.reach
  have htracked := hf.tracked
  have hsame := h.backed.entryAt_takeFrame hf h.shape.member hi
  rw [← hsame] at habsent
  obtain ⟨hp,hl,hn,ht⟩ := hstores _ (frame*4096) (htaken.shape.small index hi)
    (htaken.narrow index hi) (Nat.mul_mod_left _ _) (by omega)
  have halign : frame*4096%tableSize=0 := Nat.mul_mod_left _ _
  have hfresh : ∀ l, ¬tables l (frame*4096) := fun l => h.backed.taken hf.tracked hf.clear
  have hempty : ∀ i, i<512 →
      ¬Present (entryAt (PageMapping.takeFrame manager frame).memory (frame*4096) i) := by
    intro i hi'
    rw [takeFrame_empty manager frame hi']
    exact not_present_zero
  obtain ⟨hsystem,hdirectory,hwalk⟩ := directory_install htaken.backed.system htaken.shape hi
    halign hfresh hempty habsent hp hl ht
  refine ⟨⟨⟨⟨htaken.backed.kernel,htaken.backed.geometry,htaken.backed.reach,hsystem,
    fun hk hclear => h.backed.taken_withTable hf 1 hk hclear⟩,
    hdirectory,fun i hi' => htaken.narrow_store hi hn hi'⟩,Or.inl,?_,?_,?_,
    fun a => (hwalk a).trans (hgrown.walk a)⟩,
    (congrArg Present (entryAt_setEntry_self _ _)).mpr hp⟩
  · exact hgrown.kept.trans
      (htaken.backed.system.presentKept_store htaken.shape.member hi habsent)
  · intro level table i ht' hlevel hi'
    have hne : table≠directory := by
      rintro rfl
      have heq := h.backed.system.unique ht' h.shape.member
      omega
    have hsystem' := htaken.backed.system
    exact (entryAt_setEntry_other _ _ hi hi' (hsystem'.aligned htaken.shape.member)
      (hsystem'.aligned ht') (Or.inl hne)).trans (hgrown.upper ht' hlevel hi')
  · intro k hb ht'
    obtain ⟨hb',-⟩ := hgrown.marked hb ht'
    refine ⟨by rw [store_bitmap]; exact hb',?_⟩
    rintro l (hl'|⟨-,heq⟩)
    · exact ht' l hl'
    · have hkf : k=frame := Nat.eq_of_mul_eq_mul_right (by decide) heq
      rw [hkf,hf.clear] at hb
      cases hb

/-- The preparation of a directory entry: it is present afterwards and no
translation changed, unless the entry was absent and no frame is left. -/
theorem Tabled.ensure (h : Tabled tables directory manager) {stores : BitVec 64→ℕ→BitVec 64}
    (hstores : Installs stores) (hi : index<512) :
    (¬Present (entryAt manager.memory directory index) ∧ Exhausted manager.bitmap ∧
      ensurePageTable stores manager directory index=(.error .allocatorError,manager)) ∨
    ∃ larger after, ensurePageTable stores manager directory index=(.ok (),after) ∧
      Grown tables larger directory manager after ∧ SameRest manager after ∧
      Present (entryAt after.memory directory index) ∧
      ((Present (entryAt manager.memory directory index) ∧ after=manager) ∨
        (¬Present (entryAt manager.memory directory index) ∧
          manager.bitmap.freePages≠0 ∧ ∃ frame, NextFree manager.bitmap frame ∧
          after.bitmap=markFrame manager.bitmap frame)) := by
  rcases ensurePageTable_cases stores h.backed.kernel h.backed.geometry directory index with
    ⟨hp,he⟩|⟨hp,hnone,he⟩|⟨hp,frame,hf,hfree,he⟩
  · exact Or.inr ⟨tables,manager,he,Grown.refl h,SameRest.refl manager,hp,Or.inl ⟨hp,rfl⟩⟩
  · exact Or.inl ⟨hp,hnone,he⟩
  · obtain ⟨hgrown,hpresent⟩ := h.grown_install hstores hi hf hp
    refine Or.inr ⟨_,_,he,hgrown,?_,hpresent,Or.inr ⟨hp,hfree,frame,hf,?_⟩⟩
    · exact (sameRest_takeFrame manager frame).trans (sameRest_store _ _ _ _)
    · rw [store_bitmap,takeFrame_bitmap]

/-- One page was mapped and every other translation of the directory is as it
was. -/
structure PageMapped (tables larger : ℕ→ℕ→Prop) (directory : ℕ) (before after : MemoryManager)
    (page physicalAddress : ℕ) : Prop where
  /-- The directory is well formed again. -/
  tabled : Tabled larger directory after
  /-- No table was given up. -/
  subset : ∀ {level table : ℕ}, tables level table → larger level table
  /-- Entries that were present are as they were. -/
  kept : PresentKept before.memory after.memory tables
  /-- Tables above the directory are as they were. -/
  upper : ∀ {level table i : ℕ}, tables level table → 3≤level → i<512 →
    entryAt after.memory table i=entryAt before.memory table i
  /-- No frame that was in use became a table. -/
  marked : ∀ {k : ℕ}, bitAt before.bitmap.storage k=true → (∀ l, ¬tables l (k*4096)) →
    bitAt after.bitmap.storage k=true ∧ ∀ l, ¬larger l (k*4096)
  /-- The page translates to the frame, all others as before. -/
  walk : ∀ address, walkFrom after.memory 2 directory address=
    if indexAt 1 address=indexAt 1 page ∧ indexAt 0 address=indexAt 0 page then
      some (physicalAddress+address%4096) else walkFrom before.memory 2 directory address

/-- Growth before a mapping belongs to the mapping. -/
theorem Grown.mapped {largest : ℕ→ℕ→Prop} {middle after : MemoryManager}
    {page physicalAddress : ℕ} (h : Grown tables larger directory manager middle)
    (k : PageMapped larger largest directory middle after page physicalAddress) :
    PageMapped tables largest directory manager after page physicalAddress := by
  refine ⟨k.tabled,fun ht => k.subset (h.subset ht),?_,?_,?_,?_⟩
  · exact h.kept.trans (fun l t i ht => k.kept l t i (h.subset ht))
  · exact fun ht hl hi => (k.upper (h.subset ht) hl hi).trans (h.upper ht hl hi)
  · intro frame hb ht
    obtain ⟨hb',ht'⟩ := h.marked hb ht
    exact k.marked hb' ht'
  · intro address
    rw [k.walk,h.walk]

/-- A page without a translation has no present page-table entry. -/
theorem Tabled.absent_of_walk {page : ℕ} (h : Tabled tables directory manager)
    (hp : Present (entryAt manager.memory directory (indexAt 1 page)))
    (hw : walkFrom manager.memory 2 directory page=none) :
    ¬Present (entryAt manager.memory
      (target (entryAt manager.memory directory (indexAt 1 page))) (indexAt 0 page)) := by
  intro hpresent
  rw [h.shape.walk_eq,if_pos hp,if_pos hpresent] at hw
  cases hw

/-- Page tables are no directories: their entries are stored apart from the
directory's, and from those of the tables above. -/
theorem Tabled.entryAt_store (h : Tabled tables directory manager) {page level table i : ℕ}
    (entry : BitVec 64) (hpde : Present (entryAt manager.memory directory (indexAt 1 page)))
    (ht : tables level table) (hl : 2≤level) (hi : i<512) :
    entryAt (manager.store (target (entryAt manager.memory directory (indexAt 1 page)))
      (indexAt 0 page) entry).memory table i=entryAt manager.memory table i := by
  have htable := h.shape.table_of_present h.backed.system (indexAt_lt 1 page) hpde
  refine entryAt_setEntry_other manager.memory entry (indexAt_lt 0 page) hi
    (h.backed.system.aligned htable) (h.backed.system.aligned ht) (Or.inl ?_)
  intro heq
  rw [heq] at ht
  have hlevel := h.backed.system.unique ht htable
  omega

/-- Storing a page-table entry that was not present maps its page. -/
theorem Tabled.mapped_store (h : Tabled tables directory manager) {page physicalAddress : ℕ}
    {entry : BitVec 64} (hpde : Present (entryAt manager.memory directory (indexAt 1 page)))
    (habsent : ¬Present (entryAt manager.memory
      (target (entryAt manager.memory directory (indexAt 1 page))) (indexAt 0 page)))
    (hp : Present entry) (ht : target entry=physicalAddress) :
    PageMapped tables tables directory manager
      (manager.store (target (entryAt manager.memory directory (indexAt 1 page)))
        (indexAt 0 page) entry) page physicalAddress := by
  have htable := h.shape.table_of_present h.backed.system (indexAt_lt 1 page) hpde
  obtain ⟨hsystem,hdirectory,hwalk⟩ := directory_map h.backed.system h.shape hpde hp
  refine ⟨⟨⟨h.backed.kernel,h.backed.geometry,h.backed.reach,hsystem,h.backed.taken⟩,
    hdirectory,?_⟩,id,?_,?_,fun hb ht' => ⟨hb,ht'⟩,?_⟩
  · intro i hi
    exact (congrArg Narrow (h.entryAt_store entry hpde h.shape.member le_rfl hi)).mpr
      (h.narrow i hi)
  · exact h.backed.system.presentKept_store htable (indexAt_lt 0 page) habsent
  · exact fun ht' hl hi => h.entryAt_store entry hpde ht' (by omega) hi
  · intro address
    rw [← ht]
    exact hwalk address

end Growth

end WorkbenchOS.PageMapping
