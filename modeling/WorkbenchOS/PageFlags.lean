import WorkbenchOS.KernelSections
import WorkbenchOS.KernelUnmapping

/-!
# What setting page flags leaves alone

`set_page_flags` asks `get_kernel_page_table_entry` for every page, so it
installs a page table where the directory has none. Such a table lies in a
frame that no table in use occupies, and is zeroed. Read through the directory,
with zero where there is no page table, the entries outside the range are what
they were, and those in the range differ in two bits. Where the directory is one
of its own page tables, linking a new one maps addresses.
-/

namespace WorkbenchOS.PageFlags

open ByteMemory LibStd WordBitmaps FrameBitmap FrameOperations FrameRuns PhysicalMemory PageTables
open MemoryManagement PageMapping KernelSections
open KernelTranslation (giveTable giveTable_bitmap sameRest_giveTable getKernelPageTableEntry_ok
  getPhysicalAddress_kernelDirectoryEntry)

/-- An entry of the kernel page directory. -/
def directoryEntry (manager : MemoryManager) (i : ℕ) : BitVec 64 :=
  entryAt manager.memory manager.kernelPageDirectory i

/-- The page-table entry with these two indices, zero without a page table. -/
def tableEntry (manager : MemoryManager) (i j : ℕ) : BitVec 64 :=
  if Present (directoryEntry manager i) then
    entryAt manager.memory (getPhysicalAddress (directoryEntry manager i)) j
  else 0#64

/-- The two entries of an address are present. -/
def Mapped (manager : MemoryManager) (address : ℕ) : Prop :=
  Present (tableEntry manager (indexAt 1 address) (indexAt 0 address))

/-- The address is that of a frame the bitmap marks as allocated. -/
def InUse (bitmap : Bitmap) (address : ℕ) : Prop :=
  ∃ frame<frames bitmap,bitAt bitmap.storage frame=true ∧ address=frame*4096

/-- The tables in use, the directory and those its entries point to, lie in
different frames that the bitmap marks as allocated. -/
structure TablesInUse (manager : MemoryManager) : Prop where
  /-- Four-kilobyte frames from address zero. -/
  kernel : KernelBitmap manager.bitmap
  /-- Sizes are those `init` establishes. -/
  geometry : Geometry manager.bitmap
  /-- Frame numbers fit the 28 bits of an entry, twice what the direct map reaches. -/
  reach : frames manager.bitmap≤2^28
  /-- The directory. -/
  directory : InUse manager.bitmap manager.kernelPageDirectory
  /-- The page tables. -/
  tables : ∀ i<512,Present (directoryEntry manager i) →
    InUse manager.bitmap (getPhysicalAddress (directoryEntry manager i))
  /-- No page table is the directory. -/
  apart : ∀ i<512,Present (directoryEntry manager i) →
    getPhysicalAddress (directoryEntry manager i)≠manager.kernelPageDirectory
  /-- No two entries point to one page table. -/
  distinct : ∀ i<512,∀ j<512,Present (directoryEntry manager i) →
    Present (directoryEntry manager j) →
    getPhysicalAddress (directoryEntry manager i)=getPhysicalAddress (directoryEntry manager j) →
      i=j

/-- What the present entries of the directory alone have to say: the page tables
lie in different frames that the bitmap marks as allocated. -/
structure TablesMarked (manager : MemoryManager) : Prop where
  /-- Four-kilobyte frames from address zero. -/
  kernel : KernelBitmap manager.bitmap
  /-- Sizes are those `init` establishes. -/
  geometry : Geometry manager.bitmap
  /-- The page tables. -/
  tables : ∀ i<512,Present (directoryEntry manager i) →
    InUse manager.bitmap (getPhysicalAddress (directoryEntry manager i))
  /-- No two entries point to one page table. -/
  distinct : ∀ i<512,∀ j<512,Present (directoryEntry manager i) →
    Present (directoryEntry manager j) →
    getPhysicalAddress (directoryEntry manager i)=getPhysicalAddress (directoryEntry manager j) →
      i=j

/-- No directory entry maps a large page, and none has bits between the 28-bit
page number and bit 52. -/
def Plain (manager : MemoryManager) : Prop :=
  ∀ i<512,¬Large (directoryEntry manager i) ∧ Narrow (directoryEntry manager i)

/-- One of so many pages, from the given one on, has these two indices. -/
def Touched (page count i j : ℕ) : Prop :=
  ∃ k<count,indexAt 1 ((page+k)*4096)=i ∧ indexAt 0 ((page+k)*4096)=j

instance (page count i j : ℕ) : Decidable (Touched page count i j) :=
  inferInstanceAs (Decidable (∃ k<count,_∧_))

/-- Flags are all that changes, in the entries of so many pages. -/
structure FlagsOnly (before after : MemoryManager) (page count : ℕ) (write execute : Bool) :
    Prop where
  /-- The page tables stay where they are. -/
  directory : ∀ i<512,Present (directoryEntry before i) →
    directoryEntry after i=directoryEntry before i
  /-- No present entry changes its frame or its present bit. -/
  frames : ∀ i<512,∀ j<512,Present (tableEntry before i j) →
    Present (tableEntry after i j) ∧ target (tableEntry after i j)=target (tableEntry before i j)
  /-- No address becomes mapped or unmapped. -/
  mapped : ∀ address,Mapped after address ↔ Mapped before address
  /-- In a directory without large pages the hardware translates as before. -/
  translated : Plain before → ∀ address,
    walkFrom after.memory 2 after.kernelPageDirectory address=
      walkFrom before.memory 2 before.kernelPageDirectory address
  /-- The pages have page tables, and their entries the flags. -/
  flags : ∀ i<512,∀ j<512,Touched page count i j → Present (directoryEntry after i) ∧
    getField (tableEntry after i j) 1 1=(if write then 1 else 0) ∧
      getField (tableEntry after i j) 63 1=(if execute then 0 else 1)
  /-- Their other bits are as they were. -/
  rest : ∀ i<512,∀ j<512,Touched page count i j →
    tableEntry after i j=pageFlags (tableEntry before i j) write execute
  /-- All other entries are as they were, and zero in a new page table. -/
  others : ∀ i<512,∀ j<512,¬Touched page count i j → tableEntry after i j=tableEntry before i j

/-- The page tables are in use again, and their entries are changed each by its
indices. -/
structure TablesChanged (before after : MemoryManager) (change : ℕ→ℕ→BitVec 64→BitVec 64) :
    Prop where
  /-- The tables. -/
  inUse : TablesInUse after
  /-- Page tables stay where they are. -/
  directory : ∀ i<512,Present (directoryEntry before i) →
    directoryEntry after i=directoryEntry before i
  /-- The entries. -/
  entry : ∀ i<512,∀ j<512,tableEntry after i j=change i j (tableEntry before i j)
  /-- No large page appears. -/
  plain : Plain before → Plain after

section Entries

variable {entry : BitVec 64} {write execute : Bool}

/-- Flags do not change whether an entry is present. -/
theorem present_pageFlags : Present (pageFlags entry write execute) ↔ Present entry := by
  rw [pageFlags,present_setField_apart _ (by decide),present_setField_apart _ (by decide)]

/-- Nor where it points. -/
theorem target_pageFlags : target (pageFlags entry write execute)=target entry := by
  rw [target,target,pageFlags,getField_setField_apart _ (by decide) (by decide),
    getField_setField_apart _ (by decide) (by decide)]

/-- The flags read back. -/
theorem getField_pageFlags :
    getField (pageFlags entry write execute) 1 1=(if write then 1 else 0) ∧
      getField (pageFlags entry write execute) 63 1=(if execute then 0 else 1) := by
  rw [pageFlags,getField_setField_apart _ (by decide) (by decide),
    getField_setField_self _ (by decide),getField_setField_self _ (by decide)]
  cases write <;> cases execute <;> exact ⟨rfl,rfl⟩

/-- Setting the same flags again changes nothing. -/
theorem pageFlags_twice :
    pageFlags (pageFlags entry write execute) write execute=pageFlags entry write execute := by
  refine BitVec.eq_of_getLsbD_eq (fun j hj => ?_)
  unfold pageFlags
  rw [getLsbD_setField _ hj,getLsbD_setField _ hj,getLsbD_setField _ hj,getLsbD_setField _ hj]
  split
  · rfl
  · split <;> rfl

end Entries

section Frames

variable {bitmap : Bitmap} {address frame : ℕ}

/-- Frames are aligned. -/
theorem InUse.aligned (h : InUse bitmap address) : address%tableSize=0 := by
  obtain ⟨frame,-,-,rfl⟩ := h
  exact Nat.mul_mod_left _ _

/-- A frame in use is not the one taken next. -/
theorem InUse.ne_next (h : InUse bitmap address) (hf : NextFree bitmap frame) :
    address≠frame*4096 := by
  obtain ⟨other,-,hmarked,rfl⟩ := h
  intro heq
  have hsame : other=frame := Nat.eq_of_mul_eq_mul_right (by decide) heq
  rw [hsame,hf.clear] at hmarked
  cases hmarked

/-- Frames stay in use when another one is taken. -/
theorem InUse.mark (h : InUse bitmap address) : InUse (markFrame bitmap frame) address := by
  obtain ⟨other,hlt,hmarked,rfl⟩ := h
  refine ⟨other,?_,?_,rfl⟩
  · rwa [(sameShape_markFrame bitmap frame).frames_eq]
  · rw [bitAt_markFrame,hmarked,Bool.true_or]

/-- The frame taken is in use. -/
theorem inUse_next (hf : NextFree bitmap frame) : InUse (markFrame bitmap frame) (frame*4096) := by
  refine ⟨frame,?_,?_,rfl⟩
  · rw [(sameShape_markFrame bitmap frame).frames_eq]
    exact hf.tracked
  · rw [bitAt_markFrame,decide_eq_true rfl,Bool.or_true]

end Frames

section Tables

variable {manager : MemoryManager} {frame i j : ℕ}

/-- Without a page table the entries read as zero. -/
theorem tableEntry_absent (h : ¬Present (directoryEntry manager i)) (j : ℕ) :
    tableEntry manager i j=0#64 := if_neg h

/-- With one they are its entries. -/
theorem tableEntry_present (h : Present (directoryEntry manager i)) (j : ℕ) :
    tableEntry manager i j=
      entryAt manager.memory (getPhysicalAddress (directoryEntry manager i)) j := if_pos h

/-- The tables depend on the bitmap and the directory only. -/
theorem TablesInUse.congr {after : MemoryManager} (h : TablesInUse manager)
    (hbitmap : after.bitmap=manager.bitmap)
    (hdirectory : after.kernelPageDirectory=manager.kernelPageDirectory)
    (hentry : ∀ i<512,directoryEntry after i=directoryEntry manager i) : TablesInUse after := by
  refine ⟨?_,?_,?_,?_,?_,?_,?_⟩
  · rw [hbitmap]
    exact h.kernel
  · rw [hbitmap]
    exact h.geometry
  · rw [hbitmap]
    exact h.reach
  · rw [hbitmap,hdirectory]
    exact h.directory
  · intro i hi hp
    rw [hentry i hi] at hp ⊢
    rw [hbitmap]
    exact h.tables i hi hp
  · intro i hi hp
    rw [hentry i hi] at hp ⊢
    rw [hdirectory]
    exact h.apart i hi hp
  · intro i hi j hj hpi hpj heq
    rw [hentry i hi] at hpi heq
    rw [hentry j hj] at hpj heq
    exact h.distinct i hi j hj hpi hpj heq

/-- Nothing has changed. -/
theorem TablesChanged.refl (h : TablesInUse manager) :
    TablesChanged manager manager (fun _ _ entry => entry) :=
  ⟨h,fun _ _ _ => rfl,fun _ _ _ _ => rfl,id⟩

/-- One change after another. -/
theorem TablesChanged.trans {before middle after : MemoryManager}
    {first second : ℕ→ℕ→BitVec 64→BitVec 64} (h : TablesChanged before middle first)
    (k : TablesChanged middle after second) :
    TablesChanged before after (fun i j entry => second i j (first i j entry)) := by
  refine ⟨k.inUse,?_,?_,fun hp => k.plain (h.plain hp)⟩
  · intro i hi hp
    have hkept := h.directory i hi hp
    rw [← hkept] at hp
    exact (k.directory i hi hp).trans hkept
  · intro i hi j hj
    rw [k.entry i hi j hj,h.entry i hi j hj]

/-- Page tables stay. -/
theorem TablesChanged.present {before after : MemoryManager}
    {change : ℕ→ℕ→BitVec 64→BitVec 64} (h : TablesChanged before after change) (hi : i<512)
    (hp : Present (directoryEntry before i)) : Present (directoryEntry after i) := by
  rwa [h.directory i hi hp]

/-- A store into a page table changes one entry. -/
theorem TablesInUse.store (h : TablesInUse manager) (hi : i<512) (hj : j<512)
    (hp : Present (directoryEntry manager i)) (change : BitVec 64→BitVec 64) :
    TablesChanged manager (manager.store (getPhysicalAddress (directoryEntry manager i)) j
      (change (tableEntry manager i j)))
      (fun r s entry => if r=i ∧ s=j then change entry else entry) := by
  have htable := h.tables i hi hp
  -- the page table is not the directory
  have hdirectory : ∀ r<512,directoryEntry
      (manager.store (getPhysicalAddress (directoryEntry manager i)) j
        (change (tableEntry manager i j))) r=directoryEntry manager r :=
    fun r hr => entryAt_setEntry_other manager.memory _ hj hr htable.aligned h.directory.aligned
      (Or.inl (h.apart i hi hp).symm)
  refine ⟨h.congr rfl rfl hdirectory,fun r hr _ => hdirectory r hr,?_,?_⟩
  · intro r hr s hs
    by_cases hpr : Present (directoryEntry manager r)
    · have hpr' := hpr
      rw [← hdirectory r hr] at hpr'
      rw [tableEntry_present hpr',hdirectory r hr,tableEntry_present hpr]
      by_cases hsame : r=i ∧ s=j
      · obtain ⟨rfl,rfl⟩ := hsame
        rw [if_pos ⟨rfl,rfl⟩,← tableEntry_present hpr]
        exact entryAt_setEntry_self manager.memory _
      · rw [if_neg hsame]
        refine entryAt_setEntry_other manager.memory _ hj hs htable.aligned
          (h.tables r hr hpr).aligned ?_
        by_contra hboth
        rw [not_or,not_not,not_not] at hboth
        exact hsame ⟨h.distinct r hr i hi hpr hp hboth.1,hboth.2⟩
    · have hpr' := hpr
      rw [← hdirectory r hr] at hpr'
      rw [tableEntry_absent hpr',tableEntry_absent hpr,if_neg]
      rintro ⟨rfl,-⟩
      exact hpr hp
  · intro hplain r hr
    rw [hdirectory r hr]
    exact hplain r hr

/-- Giving an address a page table changes no other entry of a table in use. -/
theorem TablesInUse.entryAt_giveTable (h : TablesInUse manager)
    (hf : NextFree manager.bitmap frame) {address table r : ℕ} (hr : r<512)
    (ht : InUse manager.bitmap table)
    (hne : (table,r)≠(manager.kernelPageDirectory,indexAt 1 address)) :
    entryAt (giveTable manager address frame).memory table r=entryAt manager.memory table r :=
  KernelUnmapping.entryAt_giveTable h.directory.aligned ht.aligned hr hne (ht.ne_next hf)

/-- The stores of the kernel into a directory entry make it present and lead to
the frame. -/
theorem kernelDirectoryEntry_leads (entry : BitVec 64) (hframe : frame<2^28) :
    Present (kernelDirectoryEntry entry (frame*4096)) ∧
      getPhysicalAddress (kernelDirectoryEntry entry (frame*4096))=frame*4096 := by
  constructor
  · rw [kernelDirectoryEntry,present_setField_apart _ (by decide),
      present_setField_apart _ (by decide)]
    exact present_setField_self entry
  · rw [getPhysicalAddress_kernelDirectoryEntry,Nat.mod_eq_of_lt hframe]

/-- The directory entry that was absent leads to the new frame, the others are
as they were. -/
theorem TablesInUse.directoryEntry_giveTable (h : TablesInUse manager)
    (hf : NextFree manager.bitmap frame) (address : ℕ) :
    directoryEntry (giveTable manager address frame) (indexAt 1 address)=
        kernelDirectoryEntry (directoryEntry manager (indexAt 1 address)) (frame*4096) ∧
      ∀ r<512,r≠indexAt 1 address →
        directoryEntry (giveTable manager address frame) r=directoryEntry manager r := by
  have hself : entryAt (takeFrame manager frame).memory manager.kernelPageDirectory
      (indexAt 1 address)=directoryEntry manager (indexAt 1 address) :=
    entryAt_fill_other manager.memory 0 (indexAt_lt 1 address) (Nat.mul_mod_left _ _)
      h.directory.aligned (h.directory.ne_next hf)
  constructor
  · rw [← hself]
    exact KernelTranslation.directoryEntry_giveTable manager address frame
  · intro r hr hne
    rw [directoryEntry,(sameRest_giveTable manager address frame).directory_eq]
    exact h.entryAt_giveTable hf hr h.directory (fun heq => hne (Prod.ext_iff.mp heq).2)

/-- A table in use keeps being in use. -/
theorem InUse.giveTable {table : ℕ} (h : InUse manager.bitmap table) (address frame : ℕ) :
    InUse (KernelTranslation.giveTable manager address frame).bitmap table := by
  rw [giveTable_bitmap]
  exact h.mark

/-- A present entry is the new one, or an old one that is as it was. -/
theorem TablesInUse.present_giveTable (h : TablesInUse manager)
    (hf : NextFree manager.bitmap frame) {address r : ℕ} (hr : r<512)
    (hp : Present (directoryEntry (giveTable manager address frame) r)) :
    (r=indexAt 1 address ∧
      getPhysicalAddress (directoryEntry (giveTable manager address frame) r)=frame*4096) ∨
      Present (directoryEntry manager r) ∧
        directoryEntry (giveTable manager address frame) r=directoryEntry manager r := by
  obtain ⟨hself,hother⟩ := h.directoryEntry_giveTable hf address
  obtain ⟨-,hleads⟩ := kernelDirectoryEntry_leads
    (directoryEntry manager (indexAt 1 address)) (hf.tracked.trans_le h.reach)
  by_cases hsame : r=indexAt 1 address
  · refine Or.inl ⟨hsame,?_⟩
    rw [hsame,hself,hleads]
  · have heq := hother r hr hsame
    rw [heq] at hp
    exact Or.inr ⟨hp,heq⟩

/-- The tables are in use again once an address has been given one. -/
theorem TablesInUse.giveTable (h : TablesInUse manager) (hf : NextFree manager.bitmap frame)
    (address : ℕ) : TablesInUse (KernelTranslation.giveTable manager address frame) := by
  have hshape := sameShape_markFrame manager.bitmap frame
  have hdirectory := (sameRest_giveTable manager address frame).directory_eq
  have hentry := fun r hr => @TablesInUse.present_giveTable manager frame h hf address r hr
  refine ⟨?_,?_,?_,?_,?_,?_,?_⟩
  · rw [giveTable_bitmap]
    exact ⟨hshape.page_eq.trans h.kernel.page_eq,hshape.full_eq.trans h.kernel.full_eq,
      hshape.base_eq.trans h.kernel.base_eq⟩
  · rw [giveTable_bitmap]
    exact hshape.geometry h.geometry
  · rw [giveTable_bitmap,hshape.frames_eq]
    exact h.reach
  · rw [hdirectory]
    exact h.directory.giveTable address frame
  · intro r hr hp
    rcases hentry r hr hp with ⟨-,heq⟩|⟨hold,heq⟩
    · rw [heq,giveTable_bitmap]
      exact inUse_next hf
    · rw [heq]
      exact (h.tables r hr hold).giveTable address frame
  · intro r hr hp
    rw [hdirectory]
    rcases hentry r hr hp with ⟨-,heq⟩|⟨hold,heq⟩
    · rw [heq]
      exact (h.directory.ne_next hf).symm
    · rw [heq]
      exact h.apart r hr hold
  · intro r hr s hs hpr hps heq
    rcases hentry r hr hpr with ⟨hnew,hr'⟩|⟨hold,hr'⟩ <;>
      rcases hentry s hs hps with ⟨hnew',hs'⟩|⟨hold',hs'⟩
    · exact hnew.trans hnew'.symm
    · rw [hr',hs'] at heq
      exact absurd heq.symm ((h.tables s hs hold').ne_next hf)
    · rw [hr',hs'] at heq
      exact absurd heq ((h.tables r hr hold).ne_next hf)
    · rw [hr',hs'] at heq
      exact h.distinct r hr s hs hold hold' heq

/-- Giving an address a page table changes no entry, read through the
directory. -/
theorem TablesInUse.changed_giveTable (h : TablesInUse manager)
    (hf : NextFree manager.bitmap frame) {address : ℕ}
    (habsent : ¬Present (directoryEntry manager (indexAt 1 address))) :
    TablesChanged manager (KernelTranslation.giveTable manager address frame)
        (fun _ _ entry => entry) ∧
      Present (directoryEntry (KernelTranslation.giveTable manager address frame)
        (indexAt 1 address)) := by
  have hframe : frame<2^28 := hf.tracked.trans_le h.reach
  obtain ⟨hself,hother⟩ := h.directoryEntry_giveTable hf address
  obtain ⟨hpresent,hleads⟩ := kernelDirectoryEntry_leads
    (directoryEntry manager (indexAt 1 address)) hframe
  have hp : Present (directoryEntry (KernelTranslation.giveTable manager address frame)
      (indexAt 1 address)) := by
    rwa [hself]
  have hdirectory : ∀ r<512,Present (directoryEntry manager r) →
      directoryEntry (KernelTranslation.giveTable manager address frame) r=
        directoryEntry manager r := by
    intro r hr hpr
    refine hother r hr ?_
    rintro rfl
    exact habsent hpr
  refine ⟨⟨h.giveTable hf address,hdirectory,?_,?_⟩,hp⟩
  · intro r hr s hs
    by_cases hsame : r=indexAt 1 address
    · -- the new page table is zero
      have hne : (frame*4096,s)≠(manager.kernelPageDirectory,indexAt 1 address) :=
        fun heq => h.directory.ne_next hf (Prod.ext_iff.mp heq).1.symm
      have hzero : entryAt (KernelTranslation.giveTable manager address frame).memory
          (frame*4096) s=0#64 :=
        (KernelUnmapping.entryAt_store_other _ _ h.directory.aligned (indexAt_lt 1 address)
          (Nat.mul_mod_left _ _) hs hne).trans (takeFrame_empty manager frame hs)
      rw [hsame,tableEntry_present hp,tableEntry_absent habsent,hself,hleads,hzero]
    · by_cases hpr : Present (directoryEntry manager r)
      · have hpr' := hpr
        rw [← hother r hr hsame] at hpr'
        rw [tableEntry_present hpr',tableEntry_present hpr,hother r hr hsame]
        exact h.entryAt_giveTable hf hs (h.tables r hr hpr)
          (fun heq => h.apart r hr hpr (Prod.ext_iff.mp heq).1)
      · have hpr' := hpr
        rw [← hother r hr hsame] at hpr'
        rw [tableEntry_absent hpr',tableEntry_absent hpr]
  · intro hplain r hr
    by_cases hsame : r=indexAt 1 address
    · obtain ⟨hlarge,hnarrow⟩ := hplain _ (indexAt_lt 1 address)
      obtain ⟨-,hl,hn,-⟩ := installs_kernel _ (frame*4096) hlarge hnarrow (Nat.mul_mod_left _ _)
        (by omega)
      rw [hsame,hself]
      exact ⟨hl,hn⟩
    · rw [hother r hr hsame]
      exact hplain r hr

/-- The entry of an address is found in a page table in use, or no frame is
left for one. -/
theorem TablesInUse.getKernelPageTableEntry (h : TablesInUse manager) (address : ℕ) :
    (∃ error,MemoryManagement.getKernelPageTableEntry manager address=(.error error,manager)) ∨
    ∃ after,MemoryManagement.getKernelPageTableEntry manager address=
        (.ok (getPhysicalAddress (directoryEntry after (indexAt 1 address)),indexAt 0 address),
          after) ∧
      TablesChanged manager after (fun _ _ entry => entry) ∧
      Present (directoryEntry after (indexAt 1 address)) := by
  rcases getKernelPageTableEntry_ok h.kernel h.geometry address with
    ⟨hp,he⟩|⟨-,-,he⟩|⟨habsent,frame,hf,-,he⟩
  · exact Or.inr ⟨manager,he,TablesChanged.refl h,hp⟩
  · exact Or.inl ⟨.allocatorError,he⟩
  · obtain ⟨hchanged,hp⟩ := h.changed_giveTable hf habsent
    refine Or.inr ⟨KernelTranslation.giveTable manager address frame,?_,hchanged,hp⟩
    rw [he,(h.directoryEntry_giveTable hf address).1,getPhysicalAddress_kernelDirectoryEntry]

end Tables

section Loop

variable {before after : MemoryManager} {address page count i j : ℕ} {write execute : Bool}

/-- The loop asks for the entry of its page. -/
theorem indexAt_loop {level : ℕ} (hl : level<2) (address k : ℕ) :
    indexAt level (u64 (address+intPageOffset k))=indexAt level ((address/4096+k)*4096) := by
  have hpage : (address+k*Page)/4096=address/4096+k := by
    rw [Page]
    omega
  rw [indexAt_pageOffset hl,← indexAt_page,hpage]

/-- The first page, or one of the others. -/
theorem touched_succ : Touched page (count+1) i j ↔
    (i=indexAt 1 (page*4096) ∧ j=indexAt 0 (page*4096)) ∨ Touched (page+1) count i j := by
  unfold Touched
  rw [Nat.exists_lt_succ_left]
  refine or_congr ?_ (exists_congr (fun k => ?_))
  · rw [Nat.add_zero,eq_comm,@eq_comm _ _ j]
  · rw [Nat.add_assoc,Nat.add_comm 1 k]

/-- The pages of the loop get page tables, their entries get the flags, and
nothing else changes. -/
theorem setPageFlagsLoop_changed (address : ℕ) (write execute : Bool) (remaining : ℕ) :
    ∀ {first : ℕ} {before : MemoryManager},TablesInUse before →
      setPageFlagsLoop address write execute remaining first before=(.ok (),after) →
      TablesChanged before after (fun i j entry =>
        if Touched (address/4096+first) remaining i j then pageFlags entry write execute
        else entry) ∧
      ∀ k<remaining,
        Present (directoryEntry after (indexAt 1 ((address/4096+first+k)*4096))) := by
  induction remaining with
  | zero =>
    intro first before h hs
    cases hs
    refine ⟨⟨h,fun _ _ _ => rfl,fun i _ j _ => ?_,id⟩,fun k hk => absurd hk (Nat.not_lt_zero k)⟩
    have hnone : ¬Touched (address/4096+first) 0 i j := by
      rintro ⟨k,hk,-⟩
      exact absurd hk (Nat.not_lt_zero k)
    exact (if_neg hnone).symm
  | succ remaining ih =>
    intro first before h hs
    rw [setPageFlagsLoop] at hs
    rcases h.getKernelPageTableEntry (u64 (address+intPageOffset first)) with
      ⟨error,he⟩|⟨found,he,hfound,hp⟩
    · rw [he] at hs
      cases hs
    rw [he] at hs
    rw [indexAt_loop (by decide)] at hs hp
    rw [indexAt_loop (by decide)] at hs
    have hstored := hfound.inUse.store (indexAt_lt 1 _)
      (indexAt_lt 0 ((address/4096+first)*4096)) hp (fun entry => pageFlags entry write execute)
    dsimp only at hs
    rw [← tableEntry_present hp] at hs
    obtain ⟨hrest,hpresent⟩ := ih hstored.inUse hs
    have hall := (hfound.trans hstored).trans hrest
    refine ⟨⟨hall.inUse,hall.directory,?_,hall.plain⟩,?_⟩
    · intro i hi j hj
      rw [hall.entry i hi j hj,← Nat.add_assoc]
      by_cases hfirst : i=indexAt 1 ((address/4096+first)*4096) ∧
          j=indexAt 0 ((address/4096+first)*4096)
      · rw [if_pos hfirst,if_pos (touched_succ.mpr (Or.inl hfirst)),pageFlags_twice,ite_self]
      · rw [if_neg hfirst]
        refine if_congr ?_ rfl rfl
        exact ⟨fun ht => touched_succ.mpr (Or.inr ht),
          fun ht => (touched_succ.mp ht).resolve_left hfirst⟩
    · intro k hk
      cases k with
      | zero => exact hrest.present (indexAt_lt 1 _) (hstored.present (indexAt_lt 1 _) hp)
      | succ k =>
        have hk' := hpresent k (by omega)
        rwa [show address/4096+(first+1)+k=address/4096+first+(k+1) by omega] at hk'

/-- In a directory without large pages the hardware reads the entries the
kernel reads. -/
theorem Plain.walkFrom_eq {manager : MemoryManager} (h : Plain manager) (address : ℕ) :
    walkFrom manager.memory 2 manager.kernelPageDirectory address=
      if Present (tableEntry manager (indexAt 1 address) (indexAt 0 address)) then
        some (target (tableEntry manager (indexAt 1 address) (indexAt 0 address))+address%4096)
      else none := by
  obtain ⟨hsmall,hnarrow⟩ := h _ (indexAt_lt 1 address)
  by_cases hp : Present (directoryEntry manager (indexAt 1 address))
  · have hd : Descends 1 (directoryEntry manager (indexAt 1 address)) :=
      ⟨hp,fun hl => hsmall hl.2⟩
    rw [tableEntry_present hp,getPhysicalAddress_eq hnarrow,walkFrom_descend hd]
    simp only [walkFrom,zero_ne_one,OfNat.zero_ne_ofNat,or_self,false_and,if_false]
    rfl
  · rw [walkFrom_absent hp,tableEntry_absent hp,if_neg not_present_zero]

end Loop

/-- A directory with one page table. -/
theorem bootManager_inUse : TablesInUse bootManager := by
  have hmarked : ∀ frame<256,bitAt bootManager.bitmap.storage frame=true := by decide +kernel
  have hpresent : ∀ i<512,Present (directoryEntry bootManager i) →
      i=0 ∧ getPhysicalAddress (directoryEntry bootManager i)=0x13000 := by
    intro i hi hp
    have he : directoryEntry bootManager i=if i=0 then 0x13003#64 else 0#64 :=
      entryAt_bootDirectory hi
    rw [he] at hp ⊢
    by_cases hz : i=0
    · rw [if_pos hz]
      exact ⟨hz,by decide⟩
    · rw [if_neg hz] at hp
      exact absurd hp not_present_zero
  refine ⟨⟨rfl,rfl,rfl⟩,⟨by decide,fun _ => rfl,by decide +kernel,by decide⟩,by decide +kernel,
    ⟨0x12,by decide +kernel,hmarked _ (by decide),rfl⟩,?_,?_,?_⟩
  · intro i hi hp
    rw [(hpresent i hi hp).2]
    exact ⟨0x13,by decide +kernel,hmarked _ (by decide),rfl⟩
  · intro i hi hp
    rw [(hpresent i hi hp).2]
    decide
  · intro i hi j hj hpi hpj _
    rw [(hpresent i hi hpi).1,(hpresent j hj hpj).1]

/-- On success `set_page_flags` changes the flags of its pages and nothing
else. -/
theorem setPageFlags_flagsOnly {before after : MemoryManager} (h : TablesInUse before)
    {address pageCount : ℕ} (hcount : pageCount<2^18) {write execute : Bool}
    (hs : setPageFlags before address pageCount write execute=(.ok (),after)) :
    FlagsOnly before after (address/4096) pageCount write execute := by
  have hmin : min pageCount intIterations=pageCount := by
    refine Nat.min_eq_left ?_
    unfold intIterations
    omega
  rw [setPageFlags,hmin] at hs
  obtain ⟨hchanged,hpresent⟩ := setPageFlagsLoop_changed address write execute pageCount h hs
  have hkept : ∀ i<512,∀ j<512,
      (Present (tableEntry after i j) ↔ Present (tableEntry before i j)) ∧
        target (tableEntry after i j)=target (tableEntry before i j) := by
    intro i hi j hj
    rw [hchanged.entry i hi j hj]
    split
    · exact ⟨present_pageFlags,target_pageFlags⟩
    · exact ⟨Iff.rfl,rfl⟩
  have htouched : ∀ i<512,∀ j<512,Touched (address/4096) pageCount i j →
      tableEntry after i j=pageFlags (tableEntry before i j) write execute :=
    fun i hi j hj ht => (hchanged.entry i hi j hj).trans (if_pos ht)
  refine ⟨hchanged.directory,?_,?_,?_,?_,htouched,?_⟩
  · intro i hi j hj hp
    obtain ⟨hiff,htarget⟩ := hkept i hi j hj
    exact ⟨hiff.mpr hp,htarget⟩
  · intro a
    exact (hkept _ (indexAt_lt 1 a) _ (indexAt_lt 0 a)).1
  · intro hplain a
    obtain ⟨hiff,htarget⟩ := hkept _ (indexAt_lt 1 a) _ (indexAt_lt 0 a)
    rw [(hchanged.plain hplain).walkFrom_eq,hplain.walkFrom_eq,htarget]
    exact if_congr hiff rfl rfl
  · intro i hi j hj ht
    rw [htouched i hi j hj ht]
    refine ⟨?_,getField_pageFlags⟩
    obtain ⟨k,hk,rfl,-⟩ := ht
    exact hpresent k hk
  · exact fun i hi j hj ht => (hchanged.entry i hi j hj).trans (if_neg ht)

/-- The last page of the page table and the one behind it, which has none yet. -/
theorem setPageFlags_flagsOnly_sample : ∃ after,
    setPageFlags bootManager 0xffffffff801ff000 2 true false=(.ok (),after) ∧
      FlagsOnly bootManager after (0xffffffff801ff000/4096) 2 true false := by
  have hok : (setPageFlags bootManager 0xffffffff801ff000 2 true false).1=.ok () := by
    decide +kernel
  exact ⟨_,Prod.ext hok rfl,setPageFlags_flagsOnly bootManager_inUse (by decide)
    (Prod.ext hok rfl)⟩

/-- The same directory with itself as one more page table. -/
def selfManager : MemoryManager := bootManager.store 0x12000 5 0x12003#64

/-- Its two page tables, one of them the directory, are in allocated frames. -/
theorem selfManager_marked : TablesMarked selfManager := by
  have hmarked : ∀ frame<256,bitAt selfManager.bitmap.storage frame=true := by decide +kernel
  have hentry : ∀ i<512,directoryEntry selfManager i=
      if i=5 then 0x12003#64 else if i=0 then 0x13003#64 else 0#64 := by
    intro i hi
    have he : directoryEntry selfManager i=
        entryAt (setEntry bootMemory 0x12000 5 0x12003#64) 0x12000 i := rfl
    rw [he]
    by_cases hfive : i=5
    · rw [if_pos hfive,hfive,entryAt_setEntry_self]
    · rw [if_neg hfive,entryAt_setEntry_other _ _ (by decide) hi (by decide) (by decide)
        (Or.inr hfive),entryAt_bootDirectory hi]
  have hpresent : ∀ i<512,Present (directoryEntry selfManager i) →
      i=5 ∧ getPhysicalAddress (directoryEntry selfManager i)=0x12*4096 ∨
        i=0 ∧ getPhysicalAddress (directoryEntry selfManager i)=0x13*4096 := by
    intro i hi hp
    rw [hentry i hi] at hp ⊢
    by_cases hfive : i=5
    · rw [if_pos hfive]
      exact Or.inl ⟨hfive,by decide⟩
    · rw [if_neg hfive] at hp ⊢
      by_cases hz : i=0
      · rw [if_pos hz]
        exact Or.inr ⟨hz,by decide⟩
      · rw [if_neg hz] at hp
        exact absurd hp not_present_zero
  refine ⟨⟨rfl,rfl,rfl⟩,⟨by decide,fun _ => rfl,by decide +kernel,by decide⟩,?_,?_⟩
  · intro i hi hp
    rcases hpresent i hi hp with ⟨-,ht⟩|⟨-,ht⟩
    · exact ⟨0x12,by decide +kernel,hmarked _ (by decide),ht⟩
    · exact ⟨0x13,by decide +kernel,hmarked _ (by decide),ht⟩
  · intro i hi j hj hpi hpj heq
    rcases hpresent i hi hpi with ⟨rfl,hti⟩|⟨rfl,hti⟩ <;>
      rcases hpresent j hj hpj with ⟨rfl,htj⟩|⟨rfl,htj⟩
    · rfl
    · rw [hti,htj] at heq
      exact absurd heq (by decide)
    · rw [hti,htj] at heq
      exact absurd heq (by decide)
    · rfl

/-- The page table that is linked for one page maps an address whose page table is
the directory. -/
theorem setPageFlags_not_flagsOnly : ¬∀ (before after : MemoryManager) (address pageCount : ℕ)
    (write execute : Bool),TablesMarked before → pageCount<2^18 →
    setPageFlags before address pageCount write execute=(.ok (),after) →
    ∀ other,Mapped after other ↔ Mapped before other := by
  intro hall
  have hok : (setPageFlags selfManager 0xffffffff80200000 1 true false).1=.ok () := by
    decide +kernel
  have hiff := hall selfManager _ _ _ _ _ selfManager_marked (by decide) (Prod.ext hok rfl)
    0xffffffff80a01000
  have hafter : Mapped (setPageFlags selfManager 0xffffffff80200000 1 true false).2
      0xffffffff80a01000 := by
    unfold Mapped
    decide +kernel
  have hbefore : ¬Mapped selfManager 0xffffffff80a01000 := by
    unfold Mapped
    decide +kernel
  exact hbefore (hiff.mp hafter)

end WorkbenchOS.PageFlags
