import WorkbenchOS.KernelHeap
import WorkbenchOS.KernelTranslation

/-!
# What failed heap allocations leave behind

A heap page takes a frame, then an address, then perhaps a page table, and
several pages take their addresses first. None of these is given back when a
later one is missing. A failure is without effect only when nothing was there
to begin with, and whether a call fails is decided by the frames and addresses
that are left.
-/

namespace WorkbenchOS.HeapAtomicity

open ByteMemory LibStd WordBitmaps FrameBitmap FrameOperations FrameRuns PageTables
open MemoryManagement PageMapping KernelTranslation

/-- How many frames can still be taken. -/
def framesLeft (bitmap : Bitmap) : ℕ :=
  min bitmap.freePages (clearBits bitmap.storage (frames bitmap)).card

/-- The entries of a page directory that some page of a range needs and that are
not present. -/
def missingTables (memory : Memory) (directory range first count : ℕ) : Finset ℕ :=
  ((Finset.Ico first (first+count)).image (fun i => indexAt 1 (range+i*Page))).filter
    (fun index => ¬Present (entryAt memory directory index))

/-- The bitmap, the free-page count, the heap address space and the kernel page
tables are what they were. -/
structure Unaffected (before after : MemoryManager) : Prop where
  /-- The frame bitmap. -/
  storage : after.bitmap.storage=before.bitmap.storage
  /-- `m_free_pages`. -/
  freePages : after.bitmap.freePages=before.bitmap.freePages
  /-- The heap address space. -/
  heapSpace : after.heapSpace=before.heapSpace
  /-- The directory. -/
  directory : ∀ i<512,entryAt after.memory after.kernelPageDirectory i=
    entryAt before.memory before.kernelPageDirectory i
  /-- Its page tables. -/
  tables : ∀ i<512,Present (entryAt before.memory before.kernelPageDirectory i) → ∀ j<512,
    entryAt after.memory (getPhysicalAddress (entryAt before.memory before.kernelPageDirectory i)) j=
      entryAt before.memory
        (getPhysicalAddress (entryAt before.memory before.kernelPageDirectory i)) j

/-- A failure has no effect. -/
def FailsAtomically (manager : MemoryManager) (outcome : Outcome ℕ) : Prop :=
  ∀ error,outcome.1=.error error → Unaffected manager outcome.2

/-- An address and the frames for one page and its page table are there. -/
def PageBacked (manager : MemoryManager) : Prop :=
  manager.heapSpace.freePages≠0 ∧
    1+(missingTables manager.memory manager.kernelPageDirectory
      manager.heapSpace.nextAddress 0 1).card≤framesLeft manager.bitmap

/-- The addresses `take_pages` takes and the frames for all pages and page
tables are there. -/
def RangeBacked (manager : MemoryManager) (pageCount : ℕ) : Prop :=
  max 1 (min pageCount intIterations)≤ manager.heapSpace.freePages ∧
    pageCount+(missingTables manager.memory manager.kernelPageDirectory
      manager.heapSpace.nextAddress 0 pageCount).card≤
      framesLeft manager.bitmap

section Frames

variable {bitmap : Bitmap} {frame : ℕ}

/-- Nothing can be taken exactly when nothing is left. -/
theorem exhausted_iff (bitmap : Bitmap) : Exhausted bitmap ↔ framesLeft bitmap=0 := by
  have hcard : (clearBits bitmap.storage (frames bitmap)).card=0 ↔
      ∀ j,j<frames bitmap → bitAt bitmap.storage j=true := by
    rw [Finset.card_eq_zero,Finset.eq_empty_iff_forall_notMem]
    simp only [mem_clearBits,not_and,Bool.not_eq_false]
  rw [Exhausted,framesLeft,←hcard]
  omega

/-- Taking a frame leaves one less. -/
theorem framesLeft_markFrame (hf : NextFree bitmap frame) (hfree : bitmap.freePages≠0)
    (hlt : bitmap.freePages<2^64) :
    framesLeft (markFrame bitmap frame)+1=framesLeft bitmap ∧
      (markFrame bitmap frame).freePages<2^64 := by
  have hcard := card_markFrame hf.tracked hf.clear
  have hframes := (sameShape_markFrame bitmap frame).frames_eq
  have hcount : (markFrame bitmap frame).freePages=bitmap.freePages-1 := by
    rw [freePages_markFrame,u64Sub_of_le (by omega) hlt]
  unfold framesLeft
  rw [hframes,hcount]
  omega

end Frames

section Space

/-- `take_pages` and its loop never give an address back. -/
theorem takePagesLoop_freePages (remaining : ℕ) (space : VirtualAddressSpace) :
    (takePagesLoop remaining space).2.freePages≤ space.freePages ∧
      ((takePagesLoop remaining space).1=.ok () ↔ remaining≤ space.freePages) := by
  induction remaining generalizing space with
  | zero => exact ⟨le_rfl,iff_of_true rfl (Nat.zero_le _)⟩
  | succ remaining ih =>
    by_cases hz : space.freePages=0
    · have he : takePagesLoop (remaining+1) space=(.error .genericError,space) := by
        simp only [takePagesLoop,takePage,hz,if_true]
      rw [he]
      exact ⟨le_rfl,iff_of_false (fun h => by cases h) (by omega)⟩
    · have he : takePagesLoop (remaining+1) space=takePagesLoop remaining {space with
          nextAddress := u64 (space.nextAddress+Page)
          freePages := space.freePages-1} := by
        simp only [takePagesLoop,takePage,hz,if_false]
      obtain ⟨hle,hok⟩ := ih {space with
          nextAddress := u64 (space.nextAddress+Page)
          freePages := space.freePages-1}
      dsimp only at hle hok
      rw [he]
      refine ⟨by omega,hok.trans ?_⟩
      omega

/-- `take_pages` succeeds exactly when the address space has the pages. A page
is gone afterwards either way. -/
theorem takePages_freePages {space : VirtualAddressSpace} (h : space.freePages≠0) (n : ℕ) :
    (takePages space n).2.freePages<space.freePages ∧
      (max 1 (min n intIterations)≤ space.freePages →
        (takePages space n).1=.ok space.nextAddress) ∧
      (¬max 1 (min n intIterations)≤ space.freePages →
        ∃ error,(takePages space n).1=.error error) := by
  obtain ⟨hle,hok⟩ := takePagesLoop_freePages (min n intIterations-1) {space with
    nextAddress := u64 (space.nextAddress+Page)
    freePages := space.freePages-1}
  have htake : takePage space=(.ok space.nextAddress,{space with
      nextAddress := u64 (space.nextAddress+Page)
      freePages := space.freePages-1}) := by
    rw [takePage,if_neg h]
  rw [takePages,htake]
  dsimp only
  generalize takePagesLoop (min n intIterations-1) {space with
    nextAddress := u64 (space.nextAddress+Page)
    freePages := space.freePages-1}=outcome at hle hok
  rcases outcome with ⟨error|_,after⟩
  · have hshort : ¬min n intIterations-1≤ space.freePages-1 :=
      fun hl => by cases hok.mpr hl
    exact ⟨by dsimp only at hle ⊢; omega,fun hl => absurd (by omega) hshort,
      fun _ => ⟨error,rfl⟩⟩
  · have hlong : min n intIterations-1≤ space.freePages-1 := hok.mp rfl
    exact ⟨by dsimp only at hle ⊢; omega,fun _ => rfl,fun hl => absurd (by omega) hl⟩

end Space

section Steps

variable {tables : ℕ→ℕ→Prop} {manager : MemoryManager}

/-- A frame is taken, and the directory stays as it is, unless none is left. -/
theorem allocateFrame_left {directory : ℕ} (h : Tabled tables directory manager)
    (hlt : manager.bitmap.freePages<2^64) :
    (framesLeft manager.bitmap=0 ∧ allocateFrame manager=(.error .allocatorError,manager)) ∨
    ∃ frame after,NextFree manager.bitmap frame ∧ allocateFrame manager=(.ok (frame*4096),after) ∧
      after=takeFrame manager frame ∧ framesLeft after.bitmap+1=framesLeft manager.bitmap ∧
      after.bitmap.freePages<2^64 ∧ Tabled tables directory after ∧
      SameRest manager after ∧ ∀ i<512,entryAt after.memory directory i=
        entryAt manager.memory directory i := by
  rcases allocateFrame_cases h.backed.kernel h.backed.geometry with ⟨he,hnone⟩|⟨frame,hf,hfree,he⟩
  · exact Or.inl ⟨(exhausted_iff _).mp hnone,he⟩
  · obtain ⟨hleft,hcount⟩ := framesLeft_markFrame hf hfree hlt
    rw [←takeFrame_bitmap] at hleft hcount
    exact Or.inr ⟨frame,_,hf,he,rfl,hleft,hcount,h.takeFrame hf,sameRest_takeFrame manager frame,
      fun i hi => h.backed.entryAt_takeFrame hf h.shape.member hi⟩

/-- Storing a page-table entry keeps the directory, whatever the entry was. -/
theorem Tabled.store_page (h : Tabled tables manager.kernelPageDirectory manager) {page : ℕ}
    (hp : Present (directoryEntry manager page)) {entry : BitVec 64} (he : Present entry) :
    Tabled tables manager.kernelPageDirectory
        (manager.store (target (directoryEntry manager page)) (indexAt 0 page) entry) ∧
      ∀ i<512,entryAt (manager.store (target (directoryEntry manager page)) (indexAt 0 page)
        entry).memory manager.kernelPageDirectory i=
          entryAt manager.memory manager.kernelPageDirectory i := by
  have hkept : ∀ i<512,entryAt (manager.store (target (directoryEntry manager page))
      (indexAt 0 page) entry).memory manager.kernelPageDirectory i=
        entryAt manager.memory manager.kernelPageDirectory i :=
    fun i hi => h.entryAt_store entry hp h.shape.member le_rfl hi
  obtain ⟨hsystem,hdirectory,-⟩ := directory_map h.backed.system h.shape hp he
  refine ⟨⟨⟨h.backed.kernel,h.backed.geometry,h.backed.reach,hsystem,h.backed.taken⟩,hdirectory,?_⟩,
    hkept⟩
  intro i hi
  rw [hkept i hi]
  exact h.narrow i hi

/-- Once its entry is found, a page is mapped by one store that keeps the
directory. -/
theorem mapKernelPageDirectory_found {found : MemoryManager} {page physicalAddress : ℕ}
    (h : Tabled tables found.kernelPageDirectory found)
    (hpde : Present (directoryEntry found page))
    (he : getKernelPageTableEntry manager page=
      (.ok (getPhysicalAddress (directoryEntry found page),indexAt 0 page),found))
    (ha : physicalAddress%4096=0) (hp : physicalAddress<2^52) :
    ∃ after,mapKernelPageDirectory manager physicalAddress page=(.ok (),after) ∧
      Tabled tables found.kernelPageDirectory after ∧ after.bitmap=found.bitmap ∧
      after.kernelPageDirectory=found.kernelPageDirectory ∧ after.heapSpace=found.heapSpace ∧
      ∀ i<512,entryAt after.memory found.kernelPageDirectory i=
        entryAt found.memory found.kernelPageDirectory i := by
  have htable : getPhysicalAddress (directoryEntry found page)=target (directoryEntry found page) :=
    getPhysicalAddress_eq (h.narrow _ (indexAt_lt 1 page))
  rw [htable] at he
  have hentry := kernelTableEntry_maps (entryAt found.memory (target (directoryEntry found page))
    (indexAt 0 page)) ha hp
  obtain ⟨htabled,hkept⟩ := Tabled.store_page h hpde hentry.1
  have hsame := sameRest_store found (target (directoryEntry found page)) (indexAt 0 page)
    (kernelTableEntry (entryAt found.memory (target (directoryEntry found page))
      (indexAt 0 page)) physicalAddress)
  generalize hstored : found.store (target (directoryEntry found page)) (indexAt 0 page)
    (kernelTableEntry (entryAt found.memory (target (directoryEntry found page))
      (indexAt 0 page)) physicalAddress)=stored at htabled hkept hsame
  have hbitmap : stored.bitmap=found.bitmap := by rw [←hstored,store_bitmap]
  refine ⟨{stored with mapped := (page,physicalAddress)::found.mapped},?_,htabled.of_same rfl rfl,
    hbitmap,hsame.directory_eq,hsame.heapSpace_eq,hkept⟩
  simp only [mapKernelPageDirectory,he,hstored]

/-- Giving a page its table adds one directory entry. -/
theorem present_giveTable_iff (h : Tabled tables manager.kernelPageDirectory manager)
    {page frame : ℕ} (hf : NextFree manager.bitmap frame)
    (hpde : ¬Present (directoryEntry manager page)) {i : ℕ} (hi : i<512) :
    Present (entryAt (giveTable manager page frame).memory manager.kernelPageDirectory i) ↔
      Present (entryAt manager.memory manager.kernelPageDirectory i) ∨ i=indexAt 1 page := by
  by_cases hindex : i=indexAt 1 page
  · rw [hindex]
    exact iff_of_true (h.grown_install installs_kernel (indexAt_lt 1 page) hf hpde).2 (Or.inr rfl)
  · have hdirmod := h.backed.system.aligned h.shape.member
    have hother : entryAt (giveTable manager page frame).memory manager.kernelPageDirectory i=
        entryAt (takeFrame manager frame).memory manager.kernelPageDirectory i :=
      entryAt_setEntry_other _ _ (indexAt_lt 1 page) hi hdirmod hdirmod (Or.inr hindex)
    rw [hother,h.backed.entryAt_takeFrame hf h.shape.member hi]
    exact ⟨Or.inl,fun hor => hor.resolve_right hindex⟩

/-- Mapping a page fails when it needs a page table and no frame is left. Else
its directory entry is present afterwards and the others are as they were. -/
theorem mapKernelPageDirectory_left (h : Tabled tables manager.kernelPageDirectory manager)
    (hlt : manager.bitmap.freePages<2^64) (page : ℕ) {physicalAddress : ℕ}
    (ha : physicalAddress%4096=0) (hp : physicalAddress<2^52) :
    (¬Present (directoryEntry manager page) ∧ framesLeft manager.bitmap=0 ∧
      mapKernelPageDirectory manager physicalAddress page=(.error .allocatorError,manager)) ∨
    ∃ larger after,mapKernelPageDirectory manager physicalAddress page=(.ok (),after) ∧
      Tabled larger manager.kernelPageDirectory after ∧
      after.kernelPageDirectory=manager.kernelPageDirectory ∧
      after.heapSpace=manager.heapSpace ∧ after.bitmap.freePages<2^64 ∧
      framesLeft after.bitmap+(if Present (directoryEntry manager page) then 0 else 1)=
        framesLeft manager.bitmap ∧
      ∀ i<512,(Present (entryAt after.memory manager.kernelPageDirectory i) ↔
        Present (entryAt manager.memory manager.kernelPageDirectory i) ∨ i=indexAt 1 page) := by
  rcases getKernelPageTableEntry_ok h.backed.kernel h.backed.geometry page with
    ⟨hpde,he⟩|⟨hpde,hnone,he⟩|⟨hpde,frame,hf,hfree,he⟩
  · obtain ⟨after,hmap,htabled,hbitmap,hdir,hspace,hkept⟩ :=
      mapKernelPageDirectory_found h hpde he ha hp
    refine Or.inr ⟨tables,after,hmap,htabled,hdir,hspace,hbitmap ▸ hlt,?_,?_⟩
    · rw [if_pos hpde,hbitmap,Nat.add_zero]
    · intro i hi
      rw [hkept i hi]
      refine ⟨Or.inl,?_⟩
      rintro (hpresent|rfl)
      · exact hpresent
      · exact hpde
  · exact Or.inl ⟨hpde,(exhausted_iff _).mp hnone,by rw [mapKernelPageDirectory,he]⟩
  · obtain ⟨hgrown,hpresent⟩ := h.grown_install installs_kernel (indexAt_lt 1 page) hf hpde
    have hsame := sameRest_giveTable manager page frame
    have hdirectory := hsame.directory_eq
    obtain ⟨hleft,hcount⟩ := framesLeft_markFrame hf hfree hlt
    have hmarked := giveTable_bitmap manager page frame
    have hfound : Present (directoryEntry (giveTable manager page frame) page) := by
      rw [directoryEntry,hdirectory]
      exact hpresent
    have htabled : Tabled (withTable tables 1 (frame*4096))
        (giveTable manager page frame).kernelPageDirectory (giveTable manager page frame) := by
      rw [hdirectory]
      exact hgrown.tabled
    have htable : getPhysicalAddress (directoryEntry (giveTable manager page frame) page)=
        frame%2^28*4096 := by
      rw [directoryEntry_giveTable,getPhysicalAddress_kernelDirectoryEntry]
    rw [←htable] at he
    obtain ⟨after,hmap,htabled',hbitmap,hdir,hspace,hkept⟩ :=
      mapKernelPageDirectory_found htabled hfound he ha hp
    rw [hdirectory] at htabled' hkept
    refine Or.inr ⟨_,after,hmap,htabled',hdir.trans hdirectory,hspace.trans hsame.heapSpace_eq,?_,
      ?_,?_⟩
    · rw [hbitmap,hmarked]
      exact hcount
    · rw [if_neg hpde,hbitmap,hmarked]
      exact hleft
    · intro i hi
      rw [hkept i hi]
      exact present_giveTable_iff h hf hpde hi

/-- The directory index of an address does not see the wrap to 64 bits. -/
theorem indexAt_u64 (address : ℕ) : indexAt 1 (u64 address)=indexAt 1 address := by
  unfold indexAt u64
  norm_num
  omega

theorem mem_missingTables {memory : Memory} {directory range first count index : ℕ} :
    index∈missingTables memory directory range first count ↔
      (∃ i,first≤ i ∧ i<first+count ∧ indexAt 1 (range+i*Page)=index) ∧
        ¬Present (entryAt memory directory index) := by
  simp only [missingTables,Finset.mem_filter,Finset.mem_image,Finset.mem_Ico,and_assoc]

/-- No pages miss no page tables. -/
theorem missingTables_zero (memory : Memory) (directory range first : ℕ) :
    missingTables memory directory range first 0=∅ := by
  rw [missingTables,Nat.add_zero,Finset.Ico_self,Finset.image_empty,Finset.filter_empty]

/-- Mapping the first page of a range provides its page table; the others are
still missing. -/
theorem card_missingTables {before after : Memory} {directory range first : ℕ} (count : ℕ)
    (h : ∀ i<512,(Present (entryAt after directory i) ↔
      Present (entryAt before directory i) ∨ i=indexAt 1 (range+first*Page))) :
    (missingTables before directory range first (count+1)).card=
      (if Present (entryAt before directory (indexAt 1 (range+first*Page))) then 0 else 1)+
        (missingTables after directory range (first+1) count).card := by
  have hrest : ∀ index,index∈missingTables after directory range (first+1) count ↔
      index≠indexAt 1 (range+first*Page) ∧
        index∈missingTables before directory range first (count+1) := by
    intro index
    rw [mem_missingTables,mem_missingTables]
    constructor
    · rintro ⟨⟨i,hl,hr,hi⟩,habsent⟩
      have hiff := h index (hi ▸ indexAt_lt 1 _)
      rw [hiff,not_or] at habsent
      exact ⟨habsent.2,⟨i,by omega,by omega,hi⟩,habsent.1⟩
    · rintro ⟨hne,⟨i,hl,hr,hi⟩,habsent⟩
      have hiff := h index (hi ▸ indexAt_lt 1 _)
      have hfirst : i≠first := fun heq => hne (heq ▸ hi.symm)
      refine ⟨⟨i,by omega,by omega,hi⟩,?_⟩
      rw [hiff,not_or]
      exact ⟨habsent,hne⟩
  have hmem : indexAt 1 (range+first*Page)∈missingTables before directory range first (count+1) ↔
      ¬Present (entryAt before directory (indexAt 1 (range+first*Page))) := by
    rw [mem_missingTables]
    exact ⟨fun hm => hm.2,fun hm => ⟨⟨first,le_rfl,by omega,rfl⟩,hm⟩⟩
  have herase : missingTables after directory range (first+1) count=
      (missingTables before directory range first (count+1)).erase
        (indexAt 1 (range+first*Page)) := by
    ext index
    rw [hrest,Finset.mem_erase]
  rw [herase]
  by_cases hp : Present (entryAt before directory (indexAt 1 (range+first*Page)))
  · rw [if_pos hp,Finset.erase_eq_of_notMem (fun hm => hmem.mp hm hp),Nat.zero_add]
  · have hcard := Finset.card_erase_add_one (hmem.mpr hp)
    rw [if_neg hp]
    omega

/-- The loop of `allocate_kernel_heap_pages` succeeds exactly when there are
frames for all pages and all missing page tables. It takes no address. -/
theorem pagesLoop_left (range first remaining : ℕ)
    (h : Tabled tables manager.kernelPageDirectory manager) (hlt : manager.bitmap.freePages<2^64) :
    ((allocateKernelHeapPagesLoop range remaining first manager).1=.ok () ↔
      remaining+(missingTables manager.memory manager.kernelPageDirectory range first
        remaining).card≤framesLeft manager.bitmap) ∧
    (allocateKernelHeapPagesLoop range remaining first manager).2.heapSpace=manager.heapSpace := by
  induction remaining generalizing tables first manager with
  | zero =>
    rw [missingTables_zero,Finset.card_empty]
    exact ⟨iff_of_true rfl (Nat.zero_le _),rfl⟩
  | succ remaining ih =>
    rcases allocateFrame_left h hlt with ⟨hzero,hf⟩|⟨frame,framed,hnext,hf,-,hleft,hcount,ht,hs,hkept⟩
    · rw [KernelHeap.pagesLoop_noFrame hf]
      exact ⟨iff_of_false (fun he => by cases he) (by omega),rfl⟩
    · have hreach := h.backed.reach
      have htracked := hnext.tracked
      have hentry : directoryEntry framed (u64 (range+first*Page))=
          directoryEntry manager (range+first*Page) := by
        rw [directoryEntry,hs.directory_eq,indexAt_u64,hkept _ (indexAt_lt 1 _),directoryEntry]
      rw [←hs.directory_eq] at ht hkept
      rcases mapKernelPageDirectory_left ht hcount (u64 (range+first*Page))
        (Nat.mul_mod_left frame 4096) (by omega) with
        ⟨habsent,hnone,hmap⟩|⟨larger,after,hmap,ht',hd',hspace,hcount',hleft',hpresent⟩
      · rw [hentry] at habsent
        have hmem : indexAt 1 (range+first*Page)∈missingTables manager.memory
            manager.kernelPageDirectory range first (remaining+1) :=
          mem_missingTables.mpr ⟨⟨first,le_rfl,by omega,rfl⟩,habsent⟩
        have hpos := Finset.card_pos.mpr ⟨_,hmem⟩
        rw [KernelHeap.pagesLoop_noTable hf hmap]
        exact ⟨iff_of_false (fun he => by cases he) (by omega),hs.heapSpace_eq⟩
      · rw [←hd'] at ht'
        obtain ⟨hok,hsame⟩ := ih (first+1) ht' hcount'
        have hpresence : ∀ i<512,(Present (entryAt after.memory manager.kernelPageDirectory i) ↔
            Present (entryAt manager.memory manager.kernelPageDirectory i) ∨
              i=indexAt 1 (range+first*Page)) := by
          intro i hi
          rw [←hs.directory_eq,hpresent i hi,hkept i hi,indexAt_u64]
        have hcard := card_missingTables remaining hpresence
        rw [hentry,directoryEntry] at hleft'
        rw [KernelHeap.pagesLoop_page hf hmap,hok,hsame,hspace,hs.heapSpace_eq,hd',hs.directory_eq]
        exact ⟨by omega,rfl⟩

/-- A page without a table is the only one a single page can miss. -/
theorem card_missingTables_one (manager : MemoryManager) (range : ℕ) :
    (missingTables manager.memory manager.kernelPageDirectory range 0 1).card=
      if Present (directoryEntry manager range) then 0 else 1 := by
  have hset : missingTables manager.memory manager.kernelPageDirectory range 0 1=
        if Present (directoryEntry manager range) then ∅
      else {indexAt 1 range} := by
    ext index
    rw [mem_missingTables]
    constructor
    · rintro ⟨⟨i,-,hi,rfl⟩,habsent⟩
      rw [show i=0 by omega,Nat.zero_mul,Nat.add_zero] at habsent ⊢
      have hentry : ¬Present (directoryEntry manager range) := habsent
      rw [if_neg hentry]
      exact Finset.mem_singleton_self _
    · intro hm
      by_cases hp : Present (directoryEntry manager range)
      · rw [if_pos hp] at hm
        exact absurd hm (Finset.notMem_empty _)
      · rw [if_neg hp,Finset.mem_singleton] at hm
        refine ⟨⟨0,le_rfl,by omega,?_⟩,hm ▸ hp⟩
        rw [hm,Nat.zero_mul,Nat.add_zero]
  rw [hset]
  by_cases hp : Present (directoryEntry manager range)
  · rw [if_pos hp,if_pos hp,Finset.card_empty]
  · rw [if_neg hp,if_neg hp,Finset.card_singleton]

/-- A manager whose heap address space is smaller has been affected. -/
theorem Unaffected.heapSpace_lt {after : MemoryManager} (h : Unaffected manager after) :
    ¬after.heapSpace.freePages< manager.heapSpace.freePages := by
  rw [h.heapSpace]
  exact lt_irrefl _

/-- A manager that has taken a frame has been affected. -/
theorem Unaffected.not_markFrame {after : MemoryManager} {frame : ℕ} (h : Unaffected manager after)
    (hf : NextFree manager.bitmap frame) : after.bitmap≠markFrame manager.bitmap frame := by
  intro hb
  have hbit := bitAt_markFrame manager.bitmap frame frame
  rw [←hb,h.storage,hf.clear] at hbit
  simp at hbit

theorem Unaffected.refl (manager : MemoryManager) : Unaffected manager manager :=
  ⟨rfl,rfl,rfl,fun _ _ => rfl,fun _ _ _ _ _ => rfl⟩

/-- A call that returns an address fails in no way. -/
theorem failsAtomically_ok {page : ℕ} {after : MemoryManager} :
    FailsAtomically manager (.ok page,after) :=
  fun _ he => by cases he

/-- With a frame and an address taken, the page is what mapping it makes of
it. -/
theorem allocateKernelHeapPage_taken {frame : ℕ} {framed : MemoryManager}
    (hf : allocateFrame manager=(.ok (frame*4096),framed)) (hs : SameRest manager framed)
    (hz : manager.heapSpace.freePages≠0) (ht : Tabled tables manager.kernelPageDirectory framed) :
    ∃ spaced,Tabled tables spaced.kernelPageDirectory spaced ∧ spaced.bitmap=framed.bitmap ∧
      spaced.memory=framed.memory ∧ spaced.kernelPageDirectory=manager.kernelPageDirectory ∧
      ∀ result after,mapKernelPageDirectory spaced (frame*4096) manager.heapSpace.nextAddress=
          (result,after) →
        allocateKernelHeapPage manager=(result.map (fun _ => manager.heapSpace.nextAddress),after) := by
  refine ⟨{framed with heapSpace := {manager.heapSpace with
      nextAddress := u64 (manager.heapSpace.nextAddress+Page)
      freePages := manager.heapSpace.freePages-1}},?_,rfl,rfl,hs.directory_eq,?_⟩
  · rw [←hs.directory_eq] at ht
    exact ht.of_same rfl rfl
  · intro result after hmap
    simp only [allocateKernelHeapPage,hf,takePage,hs.heapSpace_eq,hz,if_false,hmap]
    rcases result with error|_
    · rfl
    · rfl

/-- What a single page leaves behind. Without its address or its page table
the frame stays taken. -/
theorem allocateKernelHeapPage_left (h : Tabled tables manager.kernelPageDirectory manager)
    (hlt : manager.bitmap.freePages<2^64) :
    (framesLeft manager.bitmap=0 ∧
      allocateKernelHeapPage manager=(.error .allocatorError,manager)) ∨
    (PageBacked manager ∧ ∃ page after,allocateKernelHeapPage manager=(.ok page,after)) ∨
    (framesLeft manager.bitmap≠0 ∧ ¬PageBacked manager ∧ ∃ error frame after,
      allocateKernelHeapPage manager=(.error error,after) ∧ NextFree manager.bitmap frame ∧
      after.bitmap=markFrame manager.bitmap frame) := by
  rcases allocateFrame_left h hlt with ⟨hzero,hf⟩|
    ⟨frame,framed,hnext,hf,htaken,hleft,hcount,ht,hs,hkept⟩
  · refine Or.inl ⟨hzero,?_⟩
    simp only [allocateKernelHeapPage,hf]
  · have hmarked : framed.bitmap=markFrame manager.bitmap frame := by
      rw [htaken,takeFrame_bitmap]
    by_cases hz : manager.heapSpace.freePages=0
    · refine Or.inr (Or.inr ⟨by omega,fun hb => hb.1 hz,.genericError,frame,framed,?_,hnext,hmarked⟩)
      simp only [allocateKernelHeapPage,hf,takePage,hs.heapSpace_eq,hz,if_true]
      rw [←hs.heapSpace_eq]
    · have hreach := h.backed.reach
      have htracked := hnext.tracked
      obtain ⟨spaced,hspaced,hbitmap,hmemory,hdir,hcall⟩ :=
        allocateKernelHeapPage_taken hf hs hz ht
      have hentry : directoryEntry spaced manager.heapSpace.nextAddress=
          directoryEntry manager manager.heapSpace.nextAddress := by
        rw [directoryEntry,hdir,hmemory,hkept _ (indexAt_lt 1 _),directoryEntry]
      have hmissing := card_missingTables_one manager manager.heapSpace.nextAddress
      rcases mapKernelPageDirectory_left hspaced (hbitmap ▸ hcount) manager.heapSpace.nextAddress
        (Nat.mul_mod_left frame 4096) (by omega) with
        ⟨habsent,hnone,hmap⟩|⟨larger,after,hmap,-,-,-,-,hleft',-⟩
      · rw [hentry] at habsent
        rw [if_neg habsent] at hmissing
        rw [hbitmap] at hnone
        have hbacked : ¬PageBacked manager := by
          rintro ⟨-,hb⟩
          omega
        exact Or.inr (Or.inr ⟨by omega,hbacked,.allocatorError,frame,spaced,hcall _ _ hmap,hnext,
          hbitmap.trans hmarked⟩)
      · rw [hentry,hbitmap,←hmissing] at hleft'
        exact Or.inr (Or.inl ⟨⟨hz,by omega⟩,manager.heapSpace.nextAddress,after,hcall _ _ hmap⟩)

/-- What a range of pages leaves behind. Unless all is there, its addresses
are gone. -/
theorem allocateKernelHeapPages_left (h : Tabled tables manager.kernelPageDirectory manager)
    (hlt : manager.bitmap.freePages<2^64) (pageCount : ℕ) :
    (manager.heapSpace.freePages=0 ∧
      allocateKernelHeapPages manager pageCount=(.error .genericError,manager)) ∨
    (RangeBacked manager pageCount ∧
      ∃ page after,allocateKernelHeapPages manager pageCount=(.ok page,after)) ∨
    (manager.heapSpace.freePages≠0 ∧ ¬RangeBacked manager pageCount ∧ ∃ error after,
      allocateKernelHeapPages manager pageCount=(.error error,after) ∧
      after.heapSpace.freePages< manager.heapSpace.freePages) := by
  by_cases hz : manager.heapSpace.freePages=0
  · refine Or.inl ⟨hz,?_⟩
    simp only [allocateKernelHeapPages,takePages,takePage,hz,if_true]
  · obtain ⟨hless,hlong,hshort⟩ := takePages_freePages hz pageCount
    generalize htaken : takePages manager.heapSpace pageCount=taken at hless hlong hshort
    obtain ⟨result,space⟩ := taken
    dsimp only at hless hlong hshort
    by_cases hroom : max 1 (min pageCount intIterations)≤ manager.heapSpace.freePages
    · obtain ⟨spaced,hspace⟩ : ∃ spaced : MemoryManager,spaced={manager with heapSpace := space} :=
        ⟨_,rfl⟩
      have hspaced : Tabled tables spaced.kernelPageDirectory spaced := by
        rw [hspace]
        exact h.of_same rfl rfl
      have hcount : spaced.bitmap.freePages<2^64 := by
        rw [hspace]
        exact hlt
      obtain ⟨hok,hsame⟩ := pagesLoop_left manager.heapSpace.nextAddress 0 pageCount hspaced hcount
      have hresult := hlong hroom
      rw [hspace] at hok hsame
      generalize hloop : allocateKernelHeapPagesLoop manager.heapSpace.nextAddress pageCount 0
        {manager with heapSpace := space}=outcome at hok hsame
      obtain ⟨loop,after⟩ := outcome
      dsimp only at hok hsame
      rcases loop with error|_
      · have hshort : ¬RangeBacked manager pageCount := fun hb => by cases hok.mpr hb.2
        refine Or.inr (Or.inr ⟨hz,hshort,error,after,?_,?_⟩)
        · simp only [allocateKernelHeapPages,htaken,hresult,hloop]
        · rw [hsame]
          exact hless
      · refine Or.inr (Or.inl ⟨⟨hroom,hok.mp rfl⟩,manager.heapSpace.nextAddress,after,?_⟩)
        simp only [allocateKernelHeapPages,htaken,hresult,hloop]
    · obtain ⟨error,rfl⟩ := hshort hroom
      refine Or.inr (Or.inr ⟨hz,fun hb => hroom hb.1,error,{manager with heapSpace := space},?_,hless⟩)
      simp only [allocateKernelHeapPages,htaken]

/-- A single page fails atomically exactly when there is no frame at all or all
it needs is there, a range exactly when there is no address at all or all it
needs is there. -/
theorem fails_atomically_iff (h : Tabled tables manager.kernelPageDirectory manager)
    (hlt : manager.bitmap.freePages<2^64) :
    (FailsAtomically manager (allocateKernelHeapPage manager) ↔
      framesLeft manager.bitmap=0 ∨ PageBacked manager) ∧
    ∀ pageCount,FailsAtomically manager (allocateKernelHeapPages manager pageCount) ↔
      manager.heapSpace.freePages=0 ∨ RangeBacked manager pageCount := by
  constructor
  · rcases allocateKernelHeapPage_left h hlt with
      ⟨hzero,he⟩|⟨hb,page,after,he⟩|⟨hne,hb,error,frame,after,he,hf,hmarked⟩
    · rw [he]
      exact iff_of_true (fun _ _ => Unaffected.refl manager) (Or.inl hzero)
    · rw [he]
      exact iff_of_true failsAtomically_ok (Or.inr hb)
    · rw [he]
      exact iff_of_false (fun ha => (ha error rfl).not_markFrame hf hmarked) (not_or.mpr ⟨hne,hb⟩)
  · intro pageCount
    rcases allocateKernelHeapPages_left h hlt pageCount with
      ⟨hzero,he⟩|⟨hb,page,after,he⟩|⟨hne,hb,error,after,he,hless⟩
    · rw [he]
      exact iff_of_true (fun _ _ => Unaffected.refl manager) (Or.inl hzero)
    · rw [he]
      exact iff_of_true failsAtomically_ok (Or.inr hb)
    · rw [he]
      exact iff_of_false (fun ha => (ha error rfl).heapSpace_lt hless) (not_or.mpr ⟨hne,hb⟩)

end Steps

/-- Pages and ranges of a manager that has just been set up. -/
theorem sampleManager_fails_atomically :
    (FailsAtomically KernelHeap.sampleManager (allocateKernelHeapPage KernelHeap.sampleManager) ↔
      framesLeft KernelHeap.sampleManager.bitmap=0 ∨ PageBacked KernelHeap.sampleManager) ∧
    ∀ pageCount,FailsAtomically KernelHeap.sampleManager
        (allocateKernelHeapPages KernelHeap.sampleManager pageCount) ↔
      KernelHeap.sampleManager.heapSpace.freePages=0 ∨
        RangeBacked KernelHeap.sampleManager pageCount := by
  obtain ⟨tables,hw⟩ := KernelHeap.sampleManager_afterInit.wired
  exact fails_atomically_iff hw.tabled (by decide)

/-- The sample without heap addresses. -/
def fullHeap : MemoryManager :=
  {KernelHeap.sampleManager with heapSpace := newAddressSpace 0xffffffff80200000 0}

/-- Without addresses a page still takes its frame: the call fails and a frame
is gone. -/
theorem page_without_address_takes_frame :
    ¬∀ (tables : ℕ → ℕ → Prop) (manager : MemoryManager),
      Tabled tables manager.kernelPageDirectory manager → manager.bitmap.freePages<2^64 →
      FailsAtomically manager (allocateKernelHeapPage manager) ∧
        ∀ pageCount,FailsAtomically manager (allocateKernelHeapPages manager pageCount) := by
  intro h
  obtain ⟨tables,hw⟩ := KernelHeap.sampleManager_afterInit.wired
  have htabled : Tabled tables fullHeap.kernelPageDirectory fullHeap := hw.tabled.of_same rfl rfl
  have hfails := (h tables fullHeap htabled (by decide)).1
  have hcall : (allocateKernelHeapPage fullHeap).1=.error .genericError ∧
      (allocateKernelHeapPage fullHeap).2.bitmap.freePages=255 := by decide +kernel
  have hcount := (hfails .genericError hcall.1).freePages
  rw [hcall.2] at hcount
  exact absurd hcount (by decide)

end WorkbenchOS.HeapAtomicity