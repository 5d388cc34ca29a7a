import WorkbenchOS.PageMapping
import WorkbenchOS.TransitionRuns

/-!
# Runs of kernel heap allocations

The kernel heap hands out virtual pages in ascending order and maps each one
in the single page directory the bootloader installed under entry 510 of the
last page-directory-pointer table. That directory translates one gibibyte of
addresses. Below its end every page handed out translates to its frame and
no translation ever changes; from its end on the hardware never reaches the
entries the kernel writes.
-/

namespace WorkbenchOS.KernelHeap

open ByteMemory LibStd WordBitmaps FrameBitmap FrameOperations FrameRuns PhysicalMemory
open PageTables MemoryManagement PageMapping TransitionRuns

/-- First address translated through the kernel page directory. -/
def windowStart : ℕ := 0xffffffff80000000

/-- End of the addresses translated through the kernel page directory. -/
def windowEnd : ℕ := 0xffffffffc0000000

/-- The hardware walk through all four levels. -/
def kernelWalk (manager : MemoryManager) (address : ℕ) : Option ℕ :=
  walkFrom manager.memory 4 manager.pml4 address

/-- The kernel page directory hangs where the bootloader puts it: entry 511
of the root, then entry 510. -/
structure Wired (tables : ℕ→ℕ→Prop) (manager : MemoryManager) : Prop where
  /-- The memory manager works on the kernel page directory. -/
  tabled : Tabled tables manager.kernelPageDirectory manager
  /-- The root is a table of the highest level. -/
  root : tables 4 manager.pml4
  /-- Entry 511 of the root leads on. -/
  upper : Descends 3 (entryAt manager.memory manager.pml4 511)
  /-- Entry 510 of the next table leads on. -/
  lower : Descends 2 (entryAt manager.memory
    (target (entryAt manager.memory manager.pml4 511)) 510)
  /-- It leads to the kernel page directory. -/
  directory_eq : target (entryAt manager.memory
    (target (entryAt manager.memory manager.pml4 511)) 510)=manager.kernelPageDirectory

/-- No translation that exists is changed. -/
structure Kept (before after : MemoryManager) : Prop where
  /-- The root is the same. -/
  root_eq : after.pml4=before.pml4
  /-- Pages that are mapped stay mapped to the same address. -/
  walk : ∀ address physical, kernelWalk before address=some physical →
    kernelWalk after address=some physical

/-- The heap of a manager that has mapped pages below a cursor only. -/
structure Heaped (cursor : ℕ) (manager : MemoryManager) : Prop where
  /-- The page tables are in place. -/
  wired : ∃ tables, Wired tables manager
  /-- Nothing is mapped from the cursor on. -/
  unmapped : ∀ address, cursor≤address → address<windowEnd →
    walkFrom manager.memory 2 manager.kernelPageDirectory address=none
  /-- Every page mapped translates to its frame. -/
  logged : ∀ pair∈manager.mapped,kernelWalk manager pair.1=some pair.2

theorem Kept.refl (manager : MemoryManager) : Kept manager manager := ⟨rfl,fun _ _ h => h⟩

theorem Kept.trans {first second third : MemoryManager} (h : Kept first second)
    (k : Kept second third) : Kept first third :=
  ⟨k.root_eq.trans h.root_eq,fun a p hw => k.walk a p (h.walk a p hw)⟩

/-- Indices of the addresses in the window. -/
theorem indexAt_window {address : ℕ} (hs : windowStart≤address) (he : address<windowEnd) :
    indexAt 3 address=511 ∧ indexAt 2 address=510 := by
  unfold windowStart at hs
  unfold windowEnd at he
  unfold indexAt
  norm_num
  omega

/-- Addresses of the window in different pages differ in an index. -/
theorem page_eq_of_indexAt {first second : ℕ} (hf : windowStart≤first) (hfe : first<windowEnd)
    (hs : windowStart≤ second) (hse : second<windowEnd)
    (hi : indexAt 1 first=indexAt 1 second ∧ indexAt 0 first=indexAt 0 second) :
    first/4096=second/4096 := by
  unfold windowStart at hf hs
  unfold windowEnd at hfe hse
  unfold indexAt at hi
  norm_num at hi
  omega

section Maps

variable {tables : ℕ→ℕ→Prop} {cursor : ℕ} {manager : MemoryManager}

/-- In the window the hardware walks through the kernel page directory. -/
theorem Wired.kernelWalk_eq (h : Wired tables manager) {address : ℕ} (hs : windowStart≤address)
    (he : address<windowEnd) : kernelWalk manager address=
      walkFrom manager.memory 2 manager.kernelPageDirectory address := by
  obtain ⟨hthree,htwo⟩ := indexAt_window hs he
  have hupper := h.upper
  have hlower := h.lower
  rw [← hthree] at hupper
  unfold kernelWalk
  rw [walkFrom_descend hupper,hthree]
  rw [← htwo] at hlower
  rw [walkFrom_descend hlower,htwo,h.directory_eq]

/-- Keeping the present entries keeps the way to the directory and every
translation. -/
theorem Wired.kept (h : Wired tables manager) {larger : ℕ→ℕ→Prop} {after : MemoryManager}
    (ht : Tabled larger manager.kernelPageDirectory after)
    (hsub : ∀ {level table : ℕ}, tables level table → larger level table)
    (hkept : PresentKept manager.memory after.memory tables)
    (hroot : after.pml4=manager.pml4)
    (hdirectory : after.kernelPageDirectory=manager.kernelPageDirectory) :
    Wired larger after ∧ Kept manager after := by
  have hpointer : tables 3 (target (entryAt manager.memory manager.pml4 511)) :=
    (h.tabled.backed.system.closed 3 _ 511 h.root (by decide) h.upper).resolve_left (by decide)
  have hfirst : entryAt after.memory after.pml4 511=entryAt manager.memory manager.pml4 511 := by
    rw [hroot]
    exact hkept 4 _ 511 h.root (by decide) h.upper.1
  have hsecond := hkept 3 _ 510 hpointer (by decide) h.lower.1
  refine ⟨⟨?_,?_,?_,?_,?_⟩,hroot,?_⟩
  · rw [hdirectory]
    exact ht
  · rw [hroot]
    exact hsub h.root
  · rw [hfirst]
    exact h.upper
  · rw [hfirst,hsecond]
    exact h.lower
  · rw [hfirst,hsecond,hdirectory]
    exact h.directory_eq
  · intro address physical hw
    unfold kernelWalk at hw ⊢
    rw [hroot]
    exact walkFrom_kept h.tabled.backed.system.closed hkept (Or.inr h.root) hw

/-- Nothing mapped from a later cursor on. -/
theorem Heaped.mono (h : Heaped cursor manager) {later : ℕ} (hl : cursor≤later) :
    Heaped later manager :=
  ⟨h.wired,fun a ha hb => h.unmapped a (hl.trans ha) hb,h.logged⟩

/-- Taking a frame keeps the heap. -/
theorem Heaped.takeFrame (h : Heaped cursor manager) {frame : ℕ}
    (hf : NextFree manager.bitmap frame) :
    Heaped cursor (takeFrame manager frame) ∧ Kept manager (takeFrame manager frame) := by
  obtain ⟨tables,hw⟩ := h.wired
  have hgrown := hw.tabled.grown_takeFrame hf
  have hsame := sameRest_takeFrame manager frame
  obtain ⟨hwired,hkept⟩ := hw.kept hgrown.tabled id hgrown.kept
    hsame.root_eq hsame.directory_eq
  refine ⟨⟨⟨tables,hwired⟩,?_,?_⟩,hkept⟩
  · intro address ha hb
    rw [hsame.directory_eq,hgrown.walk]
    exact h.unmapped address ha hb
  · rw [hsame.mapped_eq]
    exact fun pair hm => hkept.walk _ _ (h.logged pair hm)

/-- Finding the page-table entry of an address: the directory's tables grow,
unless no frame is left for the page table. -/
theorem getKernelPageTableEntry_cases
    (h : Tabled tables manager.kernelPageDirectory manager) (page : ℕ) :
    getKernelPageTableEntry manager page=(.error .allocatorError,manager) ∨
    ∃ larger after, Grown tables larger manager.kernelPageDirectory manager after ∧
      SameRest manager after ∧
      Present (entryAt after.memory manager.kernelPageDirectory (indexAt 1 page)) ∧
      getKernelPageTableEntry manager page=
        (.ok (target (entryAt after.memory manager.kernelPageDirectory (indexAt 1 page)),
          indexAt 0 page),after) := by
  have hi := indexAt_lt 1 page
  rcases h.ensure installs_kernel hi with ⟨-,-,he⟩|⟨larger,after,he,hgrown,hsame,hp,-⟩
  · left
    simp only [getKernelPageTableEntry,virtualAddressToPageDirectoryIndex_eq,he]
  · refine Or.inr ⟨larger,after,hgrown,hsame,hp,?_⟩
    have hnarrow := hgrown.tabled.narrow _ hi
    simp only [getKernelPageTableEntry,virtualAddressToPageDirectoryIndex_eq,
      virtualAddressToPageTableIndex_eq,he,hsame.directory_eq,getPhysicalAddress_eq hnarrow]

/-- Mapping one page: all that changes is its translation and the record. -/
theorem mapKernelPageDirectory_cases
    (h : Tabled tables manager.kernelPageDirectory manager) {page physicalAddress : ℕ}
    (hw : walkFrom manager.memory 2 manager.kernelPageDirectory page=none)
    (hp : physicalAddress%4096=0) (hlt : physicalAddress<2^52) :
    mapKernelPageDirectory manager physicalAddress page=(.error .allocatorError,manager) ∨
    ∃ larger stored, PageMapped tables larger manager.kernelPageDirectory manager stored page
        physicalAddress ∧ SameRest manager stored ∧
      mapKernelPageDirectory manager physicalAddress page=
        (.ok (),{stored with mapped := (page,physicalAddress)::manager.mapped}) := by
  rcases getKernelPageTableEntry_cases h page with he|⟨larger,middle,hgrown,hsame,hpresent,he⟩
  · left
    simp only [mapKernelPageDirectory,he]
  · have habsent := hgrown.tabled.absent_of_walk hpresent ((hgrown.walk page).trans hw)
    obtain ⟨hpe,hte⟩ := kernelTableEntry_maps (entryAt middle.memory
      (target (entryAt middle.memory manager.kernelPageDirectory (indexAt 1 page)))
      (indexAt 0 page)) hp hlt
    have hmapped := hgrown.mapped (hgrown.tabled.mapped_store hpresent habsent hpe hte)
    refine Or.inr ⟨larger,_,hmapped,hsame.trans (sameRest_store _ _ _ _),?_⟩
    simp only [mapKernelPageDirectory,he,hsame.mapped_eq]

/-- Mapping the page at the cursor: it translates to its frame, no other
translation changed, and the next page is the first unmapped one. -/
theorem Heaped.mapPage {page physicalAddress : ℕ} (h : Heaped page manager)
    (hs : windowStart≤page) (he : page+4096≤windowEnd) (ha : page%4096=0)
    (hp : physicalAddress%4096=0) (hlt : physicalAddress<2^52) :
    mapKernelPageDirectory manager physicalAddress page=(.error .allocatorError,manager) ∨
    ∃ after, mapKernelPageDirectory manager physicalAddress page=(.ok (),after) ∧
      Heaped (page+4096) after ∧ Kept manager after ∧
      after.mapped=(page,physicalAddress)::manager.mapped ∧
      after.heapSpace=manager.heapSpace := by
  obtain ⟨tables,hw⟩ := h.wired
  have hnone := h.unmapped page le_rfl (by omega)
  rcases mapKernelPageDirectory_cases hw.tabled hnone hp hlt with
    herror|⟨larger,stored,hmapped,hsame,hok⟩
  · exact Or.inl herror
  · refine Or.inr ⟨_,hok,?_⟩
    have htabled : Tabled larger manager.kernelPageDirectory
        {stored with mapped := (page,physicalAddress)::manager.mapped} :=
      hmapped.tabled.of_same rfl rfl
    obtain ⟨hwired,hkept⟩ := hw.kept htabled hmapped.subset hmapped.kept hsame.root_eq
      hsame.directory_eq
    refine ⟨⟨⟨larger,hwired⟩,?_,?_⟩,hkept,rfl,hsame.heapSpace_eq⟩
    · intro address hlow hhigh
      have hwalk := hmapped.walk address
      have hother : ¬(indexAt 1 address=indexAt 1 page ∧ indexAt 0 address=indexAt 0 page) := by
        intro hi
        have hpage := page_eq_of_indexAt (by omega) hhigh hs (by omega) hi
        omega
      rw [if_neg hother,h.unmapped address (by omega) hhigh] at hwalk
      dsimp only
      rw [hsame.directory_eq]
      exact hwalk
    · refine List.forall_mem_cons.mpr ⟨?_,fun pair hm => hkept.walk _ _ (h.logged pair hm)⟩
      have hwalk := hmapped.walk page
      rw [if_pos ⟨rfl,rfl⟩,ha,Nat.add_zero] at hwalk
      rw [hwired.kernelWalk_eq hs (by omega)]
      dsimp only
      rw [hsame.directory_eq]
      exact hwalk

end Maps

/-- The part of the address space the heap still owns: aligned, above the
start of the window, and not wrapping. -/
structure SpaceOk (space : VirtualAddressSpace) : Prop where
  /-- The next page is above the start of the window. -/
  start_le : windowStart≤ space.nextAddress
  /-- It is page aligned. -/
  aligned : space.nextAddress%4096=0
  /-- The pages left end below the top of the address space. -/
  bound : space.nextAddress+space.freePages*4096<2^64

section Space

variable {space : VirtualAddressSpace}

/-- Everything `take_page` can do. -/
theorem takePage_cases (h : SpaceOk space) :
    takePage space=(.error .genericError,space) ∨
    ∃ after, takePage space=(.ok space.nextAddress,after) ∧ SpaceOk after ∧
      after.nextAddress=space.nextAddress+4096 := by
  have hs := h.start_le
  have ha := h.aligned
  have hb := h.bound
  by_cases hzero : space.freePages=0
  · exact Or.inl (by rw [takePage,if_pos hzero])
  · have hnext : u64 (space.nextAddress+Page)=space.nextAddress+4096 := by
      unfold Page
      exact u64_of_lt (by omega)
    refine Or.inr ⟨{space with
      nextAddress := space.nextAddress+4096
      freePages := space.freePages-1},?_,?_,rfl⟩
    · rw [takePage,if_neg hzero,hnext]
    · refine ⟨?_,?_,?_⟩
      · dsimp only
        omega
      · dsimp only
        omega
      · dsimp only
        omega

/-- The remaining pages of `take_pages`. -/
theorem takePagesLoop_cases (h : SpaceOk space) (remaining : ℕ) :
    (∃ error after, takePagesLoop remaining space=(.error error,after) ∧ SpaceOk after ∧
      space.nextAddress≤after.nextAddress) ∨
    ∃ after, takePagesLoop remaining space=(.ok (),after) ∧ SpaceOk after ∧
      after.nextAddress=space.nextAddress+remaining*4096 := by
  induction remaining generalizing space with
  | zero => exact Or.inr ⟨space,rfl,h,by rw [Nat.zero_mul,Nat.add_zero]⟩
  | succ remaining ih =>
    rcases takePage_cases h with he|⟨next,he,hnext,hmoved⟩
    · exact Or.inl ⟨.genericError,space,by simp only [takePagesLoop,he],h,le_rfl⟩
    · rcases ih hnext with ⟨error,after,hl,hok,hle⟩|⟨after,hl,hok,heq⟩
      · exact Or.inl ⟨error,after,by simp only [takePagesLoop,he,hl],hok,by omega⟩
      · exact Or.inr ⟨after,by simp only [takePagesLoop,he,hl],hok,by omega⟩

/-- Everything `take_pages` can do: when it succeeds, at least the pages
asked for are behind the next address. -/
theorem takePages_cases (h : SpaceOk space) {pageCount : ℕ} (hn : pageCount≤ intIterations) :
    (∃ error after, takePages space pageCount=(.error error,after) ∧ SpaceOk after ∧
      space.nextAddress≤after.nextAddress) ∨
    ∃ after, takePages space pageCount=(.ok space.nextAddress,after) ∧ SpaceOk after ∧
      space.nextAddress+pageCount*4096≤after.nextAddress := by
  rcases takePage_cases h with he|⟨next,he,hnext,hmoved⟩
  · exact Or.inl ⟨.genericError,space,by simp only [takePages,he],h,le_rfl⟩
  · rcases takePagesLoop_cases hnext (min pageCount intIterations-1) with
      ⟨error,after,hl,hok,hle⟩|⟨after,hl,hok,heq⟩
    · exact Or.inl ⟨error,after,by simp only [takePages,he,hl],hok,by omega⟩
    · refine Or.inr ⟨after,by simp only [takePages,he,hl],hok,?_⟩
      rw [Nat.min_eq_left hn] at heq
      omega

end Space

/-- The pages of a range have all been mapped. -/
def RangeMapped (manager : MemoryManager) (range first count : ℕ) : Prop :=
  ∀ j, first≤j → j<first+count → ∃ frame, (range+j*4096,frame)∈manager.mapped

section Operations

variable {cursor : ℕ} {manager : MemoryManager}

/-- A frame for the heap, or none and nothing changed. -/
theorem Heaped.allocateFrame (h : Heaped cursor manager) :
    MemoryManagement.allocateFrame manager=(.error .allocatorError,manager) ∨
    ∃ physicalAddress after,
      MemoryManagement.allocateFrame manager=(.ok physicalAddress,after) ∧
      physicalAddress%4096=0 ∧ physicalAddress<2^52 ∧ Heaped cursor after ∧ Kept manager after ∧
      after.mapped=manager.mapped ∧ after.heapSpace=manager.heapSpace := by
  obtain ⟨tables,hw⟩ := h.wired
  have hreach := hw.tabled.backed.reach
  rcases allocateFrame_cases hw.tabled.backed.kernel hw.tabled.backed.geometry with
    ⟨he,-⟩|⟨frame,hf,-,he⟩
  · exact Or.inl he
  · have htracked := hf.tracked
    obtain ⟨hheaped,hkept⟩ := h.takeFrame hf
    have hsame := sameRest_takeFrame manager frame
    exact Or.inr ⟨frame*4096,_,he,Nat.mul_mod_left _ _,by omega,hheaped,hkept,hsame.mapped_eq,
      hsame.heapSpace_eq⟩

/-- Another address space leaves the heap as it is. -/
theorem Heaped.withSpace (h : Heaped cursor manager) (space : VirtualAddressSpace) :
    Heaped cursor {manager with heapSpace := space} := by
  obtain ⟨tables,hw⟩ := h.wired
  have htabled : Tabled tables manager.kernelPageDirectory {manager with heapSpace := space} :=
    hw.tabled.of_same rfl rfl
  exact ⟨⟨tables,⟨htabled,hw.root,hw.upper,hw.lower,hw.directory_eq⟩⟩,h.unmapped,h.logged⟩

/-- Another address space changes no translation. -/
theorem Kept.withSpace (manager : MemoryManager) (space : VirtualAddressSpace) :
    Kept manager {manager with heapSpace := space} := ⟨rfl,fun _ _ hw => hw⟩

/-- The loop stops where no frame is left for a page. -/
theorem pagesLoop_noFrame {range first : ℕ} {framed : MemoryManager}
    {error : PhysicalMemory.MemoryManagerError}
    (hf : allocateFrame manager=(.error error,framed)) (remaining : ℕ) :
    allocateKernelHeapPagesLoop range (remaining+1) first manager=(.error error,framed) := by
  rw [allocateKernelHeapPagesLoop,hf]

/-- Or for its page table. -/
theorem pagesLoop_noTable {range first frame : ℕ} {framed after : MemoryManager}
    {error : PhysicalMemory.MemoryManagerError} (hf : allocateFrame manager=(.ok frame,framed))
    (hmap : mapKernelPageDirectory framed frame (u64 (range+first*Page))=(.error error,after))
    (remaining : ℕ) :
    allocateKernelHeapPagesLoop range (remaining+1) first manager=(.error error,after) := by
  simp only [allocateKernelHeapPagesLoop,hf,hmap]

/-- Otherwise it goes on with the next page. -/
theorem pagesLoop_page {range first frame : ℕ} {framed after : MemoryManager}
    (hf : allocateFrame manager=(.ok frame,framed))
    (hmap : mapKernelPageDirectory framed frame (u64 (range+first*Page))=(.ok (),after))
    (remaining : ℕ) :
    allocateKernelHeapPagesLoop range (remaining+1) first manager=
      allocateKernelHeapPagesLoop range remaining (first+1) after := by
  simp only [allocateKernelHeapPagesLoop,hf,hmap]

/-- The loop of `allocate_kernel_heap_pages`: pages are mapped from the cursor
on, in order, and nothing that was mapped changes. -/
theorem Heaped.pagesLoop {range i : ℕ} (remaining : ℕ) (h : Heaped (range+i*4096) manager)
    (hs : windowStart≤range) (ha : range%4096=0)
    (he : range+(i+remaining)*4096≤windowEnd) :
    ∃ result after, allocateKernelHeapPagesLoop range remaining i manager=(result,after) ∧
      Heaped (range+(i+remaining)*4096) after ∧ Kept manager after ∧
      (∀ pair∈manager.mapped,pair∈after.mapped) ∧ after.heapSpace=manager.heapSpace ∧
      (result=.ok () → RangeMapped after range i remaining) := by
  induction remaining generalizing i manager with
  | zero =>
    rw [Nat.add_zero] at he ⊢
    refine ⟨.ok (),manager,by rw [allocateKernelHeapPagesLoop],h,Kept.refl manager,
      fun _ hm => hm,rfl,?_⟩
    intro _ j hj hlt
    omega
  | succ remaining ih =>
    have hstep : range+(i+(remaining+1))*4096=range+(i+1+remaining)*4096 := by
      rw [Nat.add_assoc i 1,Nat.add_comm 1]
    rw [hstep] at he ⊢
    have hle : range+i*4096≤range+(i+1+remaining)*4096 :=
      Nat.add_le_add_left (Nat.mul_le_mul_right 4096 (by omega)) range
    rcases h.allocateFrame with hf|⟨physicalAddress,framed,hf,hp,hlt,hframed,hk,hm,hspace⟩
    · refine ⟨.error .allocatorError,manager,pagesLoop_noFrame hf remaining,h.mono hle,
        Kept.refl manager,fun _ hm => hm,rfl,?_⟩
      intro hno
      cases hno
    · have hwindow : windowEnd=0xffffffffc0000000 := rfl
      have haddress : u64 (range+i*Page)=range+i*4096 := by
        unfold Page
        exact u64_of_lt (by omega)
      rcases hframed.mapPage (by omega) (by omega) (by omega) hp hlt with
        hmap|⟨next,hmap,hnext,hknext,hmnext,hsnext⟩ <;> rw [← haddress] at hmap
      · refine ⟨.error .allocatorError,framed,pagesLoop_noTable hf hmap remaining,
          hframed.mono hle,hk,?_,hspace,?_⟩
        · rw [hm]
          exact fun _ hp => hp
        · intro hno
          cases hno
      · rw [show range+i*4096+4096=range+(i+1)*4096 by omega] at hnext
        obtain ⟨result,after,hl,hafter,hkafter,hmafter,hsafter,hrange⟩ := ih hnext he
        refine ⟨result,after,(pagesLoop_page hf hmap remaining).trans hl,?_,
          (hk.trans hknext).trans hkafter,?_,(hsafter.trans hsnext).trans hspace,?_⟩
        · exact hafter
        · intro pair hpair
          refine hmafter pair ?_
          rw [hmnext,hm]
          exact List.mem_cons_of_mem _ hpair
        · intro hok j hj hlt'
          by_cases hji : j=i
          · refine ⟨physicalAddress,hmafter _ ?_⟩
            rw [hmnext,hji]
            exact List.mem_cons_self
          · exact hrange hok j (by omega) (by omega)

end Operations

/-- The memory manager with the heap pages it has handed out. -/
structure HeapState where
  /-- The manager. -/
  manager : MemoryManager
  /-- Virtual addresses of the pages handed out, the latest call first. -/
  handed : List ℕ

/-- Calls of the kernel heap. -/
inductive HeapAction where
  /-- `allocate_kernel_heap_page()`. -/
  | allocateKernelHeapPage
  /-- `allocate_kernel_heap_pages(page_count)`. -/
  | allocateKernelHeapPages (pageCount : ℕ)
  deriving DecidableEq

/-- One call. A range hands out all of its pages. -/
def heapStep (state : HeapState) : HeapAction→Option HeapState
  | .allocateKernelHeapPage => some (match allocateKernelHeapPage state.manager with
    | (.ok address,after) => ⟨after,address::state.handed⟩
    | (.error _,after) => ⟨after,state.handed⟩)
  | .allocateKernelHeapPages pageCount =>
    some (match allocateKernelHeapPages state.manager pageCount with
    | (.ok range,after) => ⟨after,(List.range pageCount).map (fun j => range+j*Page)++state.handed⟩
    | (.error _,after) => ⟨after,state.handed⟩)

/-- The manager after `init`: page tables in place, nothing mapped where the
heap begins, and no page handed out yet. -/
structure AfterInit (state : HeapState) : Prop where
  /-- The page tables are in place. -/
  wired : ∃ tables, Wired tables state.manager
  /-- Nothing is mapped from the first heap page to the end of the window. -/
  unmapped : ∀ address, state.manager.heapSpace.nextAddress≤address → address<windowEnd →
    kernelWalk state.manager address=none
  /-- The heap address space is the top of the address space. -/
  space : SpaceOk state.manager.heapSpace
  /-- No page is mapped for the heap. -/
  fresh : state.manager.mapped=[]
  /-- No page is handed out. -/
  none_handed : state.handed=[]

/-- Every page handed out was mapped to a frame, and the hardware translates
every page that was mapped to its frame. -/
def Translated (state : HeapState) : Prop :=
  (∀ page∈state.handed,∃ frame, (page,frame)∈state.manager.mapped) ∧
    ∀ pair∈state.manager.mapped,kernelWalk state.manager pair.1=some pair.2

/-- The call leaves every translation as it is. -/
def Undisturbed (state : HeapState) (action : HeapAction) : Prop :=
  ∀ next, heapStep state action=some next → Kept state.manager next.manager

/-- The pages the call maps end before the window does. -/
def InWindow (state : HeapState) : HeapAction→Prop
  | .allocateKernelHeapPage => state.manager.heapSpace.nextAddress+Page≤windowEnd
  | .allocateKernelHeapPages pageCount => pageCount=0 ∨
      state.manager.heapSpace.nextAddress+pageCount*Page≤windowEnd

instance (state : HeapState) : DecidablePred (InWindow state)
  | .allocateKernelHeapPage => inferInstanceAs (Decidable (_≤_))
  | .allocateKernelHeapPages _ => inferInstanceAs (Decidable (_ ∨ _))

/-- What holds in every state of a run inside the window. -/
structure HeapInvariant (state : HeapState) : Prop where
  /-- Nothing is mapped from the next heap page on. -/
  heaped : Heaped state.manager.heapSpace.nextAddress state.manager
  /-- The address space does not wrap. -/
  space : SpaceOk state.manager.heapSpace
  /-- Every page handed out was mapped. -/
  handed : ∀ page∈state.handed,∃ frame, (page,frame)∈state.manager.mapped

section Runs

variable {state : HeapState}

theorem HeapInvariant.translated (h : HeapInvariant state) : Translated state :=
  ⟨h.handed,h.heaped.logged⟩

/-- The invariant holds after `init`. -/
theorem AfterInit.invariant (h : AfterInit state) : HeapInvariant state := by
  obtain ⟨tables,hw⟩ := h.wired
  have hs := h.space.start_le
  refine ⟨⟨h.wired,?_,?_⟩,h.space,?_⟩
  · intro address ha he
    rw [← hw.kernelWalk_eq (hs.trans ha) he]
    exact h.unmapped address ha he
  · rw [h.fresh]
    exact fun pair hm => by cases hm
  · rw [h.none_handed]
    exact fun page hm => by cases hm

/-- Heap addresses that are taken for no page leave the invariant alone. -/
theorem HeapInvariant.withSpace (h : HeapInvariant state) {manager : MemoryManager}
    (hheaped : Heaped state.manager.heapSpace.nextAddress manager)
    (hmapped : manager.mapped=state.manager.mapped) {space : VirtualAddressSpace}
    (hok : SpaceOk space) (hle : state.manager.heapSpace.nextAddress≤ space.nextAddress) :
    HeapInvariant ⟨{manager with heapSpace := space},state.handed⟩ := by
  refine ⟨(hheaped.mono hle).withSpace space,hok,?_⟩
  dsimp only
  rw [hmapped]
  exact h.handed

/-- Pages that were handed out stay mapped when more are. -/
theorem HeapInvariant.handed_mono (h : HeapInvariant state) {mapped : List (ℕ×ℕ)}
    (hmore : ∀ entry∈state.manager.mapped,entry∈mapped) :
    ∀ page∈state.handed,∃ frame, (page,frame)∈mapped := by
  intro page hpage
  obtain ⟨frame,hframe⟩ := h.handed page hpage
  exact ⟨frame,hmore _ hframe⟩

/-- One page. -/
theorem HeapInvariant.page (h : HeapInvariant state)
    (hw : InWindow state .allocateKernelHeapPage) :
    ∃ next, heapStep state .allocateKernelHeapPage=some next ∧ HeapInvariant next ∧
      Kept state.manager next.manager := by
  have hin : state.manager.heapSpace.nextAddress+4096≤windowEnd := hw
  rcases h.heaped.allocateFrame with hf|⟨physicalAddress,framed,hf,hp,hlt,hframed,hk,hm,hspace⟩
  · refine ⟨state,?_,h,Kept.refl _⟩
    simp only [heapStep,allocateKernelHeapPage,hf]
  · rcases takePage_cases h.space with ht|⟨space,ht,hok,hmoved⟩
    · refine ⟨⟨{framed with heapSpace := state.manager.heapSpace},state.handed⟩,?_,?_,?_⟩
      · simp only [heapStep,allocateKernelHeapPage,hf,hspace,ht]
      · exact h.withSpace hframed hm h.space le_rfl
      · exact hk.trans (Kept.withSpace framed _)
    · have hstart := h.space.start_le
      have haligned := h.space.aligned
      rcases (hframed.withSpace space).mapPage hstart hin haligned hp hlt with
        hmap|⟨after,hmap,hafter,hka,hma,hsa⟩
      · refine ⟨⟨{framed with heapSpace := space},state.handed⟩,?_,?_,?_⟩
        · simp only [heapStep,allocateKernelHeapPage,hf,hspace,ht,hmap]
        · exact h.withSpace hframed hm hok (by omega)
        · exact hk.trans (Kept.withSpace framed _)
      · refine ⟨⟨after,state.manager.heapSpace.nextAddress::state.handed⟩,?_,?_,?_⟩
        · simp only [heapStep,allocateKernelHeapPage,hf,hspace,ht,hmap]
        · dsimp only at hma hsa
          refine ⟨?_,?_,?_⟩
          · dsimp only
            rw [hsa,hmoved]
            exact hafter
          · dsimp only
            rw [hsa]
            exact hok
          · dsimp only
            rw [hma,hm]
            exact List.forall_mem_cons.mpr ⟨⟨physicalAddress,List.mem_cons_self⟩,
              h.handed_mono (fun _ hmem => List.mem_cons_of_mem _ hmem)⟩
        · exact (hk.trans (Kept.withSpace framed space)).trans hka

/-- A range of pages. -/
theorem HeapInvariant.pages (h : HeapInvariant state) {pageCount : ℕ}
    (hw : InWindow state (.allocateKernelHeapPages pageCount)) :
    ∃ next, heapStep state (.allocateKernelHeapPages pageCount)=some next ∧
      HeapInvariant next ∧ Kept state.manager next.manager := by
  have hstart := h.space.start_le
  have haligned := h.space.aligned
  have hcount : pageCount≤ intIterations := by
    unfold InWindow Page at hw
    unfold windowEnd at hw
    unfold windowStart at hstart
    unfold intIterations
    omega
  rcases takePages_cases h.space hcount with ⟨error,space,ht,hok,hle⟩|⟨space,ht,hok,hle⟩
  · refine ⟨⟨{state.manager with heapSpace := space},state.handed⟩,?_,?_,?_⟩
    · simp only [heapStep,allocateKernelHeapPages,ht]
    · exact h.withSpace h.heaped rfl hok hle
    · exact Kept.withSpace _ space
  · rcases Nat.eq_zero_or_pos pageCount with hzero|hpos
    · -- nothing is mapped for no pages, although one page is taken
      subst hzero
      refine ⟨⟨{state.manager with heapSpace := space},state.handed⟩,?_,?_,?_⟩
      · simp only [heapStep,allocateKernelHeapPages,ht,allocateKernelHeapPagesLoop,
          List.range_zero,List.map_nil,List.nil_append]
      · exact h.withSpace h.heaped rfl hok (by omega)
      · exact Kept.withSpace _ space
    · have hin : state.manager.heapSpace.nextAddress+(0+pageCount)*4096≤windowEnd := by
        rw [Nat.zero_add]
        exact hw.resolve_left (by omega)
      have hbegin : Heaped (state.manager.heapSpace.nextAddress+0*4096)
          {state.manager with heapSpace := space} := by
        rw [Nat.zero_mul,Nat.add_zero]
        exact h.heaped.withSpace space
      obtain ⟨result,after,hl,hafter,hka,hma,hsa,hrange⟩ :=
        hbegin.pagesLoop pageCount hstart haligned hin
      dsimp only at hma hsa
      rw [Nat.zero_add] at hafter
      have hkept := h.handed_mono hma
      have hheaped : Heaped after.heapSpace.nextAddress after := by
        rw [hsa]
        exact hafter.mono hle
      have hspace : SpaceOk after.heapSpace := by
        rw [hsa]
        exact hok
      cases result with
      | error error =>
        refine ⟨⟨after,state.handed⟩,?_,⟨hheaped,hspace,hkept⟩,
          (Kept.withSpace _ space).trans hka⟩
        simp only [heapStep,allocateKernelHeapPages,ht,hl]
      | ok done =>
        refine ⟨⟨after,(List.range pageCount).map
          (fun j => state.manager.heapSpace.nextAddress+j*Page)++state.handed⟩,?_,
          ⟨hheaped,hspace,?_⟩,(Kept.withSpace _ space).trans hka⟩
        · simp only [heapStep,allocateKernelHeapPages,ht,hl]
        · intro page hpage
          rcases List.mem_append.mp hpage with hnew|hold
          · obtain ⟨j,hj,rfl⟩ := List.mem_map.mp hnew
            exact hrange rfl j (Nat.zero_le j) (by rw [Nat.zero_add]; exact List.mem_range.mp hj)
          · exact hkept page hold

/-- Every call inside the window keeps the invariant and all translations. -/
theorem heapInvariant_step (state : HeapState) (action : HeapAction) (h : HeapInvariant state)
    (hw : InWindow state action) :
    ∃ next, heapStep state action=some next ∧ HeapInvariant next ∧
      Kept state.manager next.manager := by
  cases action with
  | allocateKernelHeapPage => exact h.page hw
  | allocateKernelHeapPages pageCount => exact h.pages hw

end Runs

/-- Over every run after `init` whose calls stay inside the window, every page
handed out translates to its frame and no translation ever changes. -/
theorem heap_translated {state : HeapState} (h : AfterInit state) {actions : List HeapAction}
    (hw : Each heapStep InWindow state actions) :
    Always heapStep Translated state actions ∧ Each heapStep Undisturbed state actions := by
  have hstep : ∀ state action, HeapInvariant state → InWindow state action →
      ∃ next, heapStep state action=some next ∧ HeapInvariant next := by
    intro state action hi hc
    obtain ⟨next,hn,hnext,-⟩ := heapInvariant_step state action hi hc
    exact ⟨next,hn,hnext⟩
  refine ⟨?_,each_of_each hstep ?_ h.invariant hw⟩
  · exact (always_of_each hstep h.invariant hw).imp (fun _ hi => hi.translated)
  · intro state action hi hc next hn
    obtain ⟨next',hn',-,hk⟩ := heapInvariant_step state action hi hc
    cases Option.some.inj (hn'.symm.trans hn)
    exact hk

/-- Page tables as the bootloader leaves them: root, pointer table, and a
directory without page tables. -/
def sampleMemory : Memory :=
  setEntry (setEntry (fun _ => 0) 0x10000 511 0x11003#64) 0x11000 510 0x12003#64

/-- Two mebibytes of memory with the first one in use, and a heap that begins
two mebibytes into the window. -/
def sampleManager : MemoryManager where
  bitmap := ⟨4096,512,256,8,262144,fun block => if block<4 then bitmapFull else 0#64,0⟩
  memory := sampleMemory
  heapSpace := newAddressSpace 0xffffffff80200000 0x7fdfffff
  kernelPageDirectory := 0x12000
  pml4 := 0x10000
  mapped := []

/-- The tables of the sample. -/
def sampleTables (level table : ℕ) : Prop :=
  (level=4 ∧ table=0x10000) ∨ (level=3 ∧ table=0x11000) ∨ (level=2 ∧ table=0x12000)

/-- Only two entries of the sample's tables are not zero. -/
theorem entryAt_sampleMemory {table index : ℕ} (ht : table%tableSize=0) (hi : index<512) :
    entryAt sampleMemory table index=
      if table=0x11000 ∧ index=510 then 0x12003#64
      else if table=0x10000 ∧ index=511 then 0x11003#64 else 0#64 := by
  unfold sampleMemory
  by_cases hsecond : table=0x11000 ∧ index=510
  · rw [if_pos hsecond,hsecond.1,hsecond.2,entryAt_setEntry_self]
  · rw [if_neg hsecond,entryAt_setEntry_other _ _ (by decide) hi (by decide) ht
      (not_and_or.mp hsecond)]
    by_cases hfirst : table=0x10000 ∧ index=511
    · rw [if_pos hfirst,hfirst.1,hfirst.2,entryAt_setEntry_self]
    · rw [if_neg hfirst,entryAt_setEntry_other _ _ (by decide) hi (by decide) ht
        (not_and_or.mp hfirst)]
      exact entryAt_zero hi (fun _ _ _ => rfl)

/-- The sample's directory is empty. -/
theorem entryAt_sampleDirectory {index : ℕ} (hi : index<512) :
    entryAt sampleMemory 0x12000 index=0#64 := by
  rw [entryAt_sampleMemory (by decide) hi,if_neg (by omega),if_neg (by omega)]

/-- The sample's tables are well formed. -/
theorem sampleTables_system : TableSystem sampleMemory sampleTables := by
  have haligned : ∀ {level table : ℕ}, sampleTables level table → table%tableSize=0 := by
    rintro level table (⟨-,rfl⟩|⟨-,rfl⟩|⟨-,rfl⟩) <;> decide
  refine ⟨haligned,?_,?_⟩
  · rintro level other table (⟨rfl,rfl⟩|⟨rfl,rfl⟩|⟨rfl,rfl⟩) (⟨rfl,h⟩|⟨rfl,h⟩|⟨rfl,h⟩) <;>
      first
      | rfl
      | cases h
  · intro level table index ht hi hd
    rw [entryAt_sampleMemory (haligned ht) hi] at hd ⊢
    by_cases hsecond : table=0x11000 ∧ index=510
    · rw [if_pos hsecond]
      rcases ht with ⟨-,h⟩|⟨hl,-⟩|⟨-,h⟩
      · omega
      · exact Or.inr (Or.inr (Or.inr ⟨by omega,by decide⟩))
      · omega
    · rw [if_neg hsecond] at hd ⊢
      by_cases hfirst : table=0x10000 ∧ index=511
      · rw [if_pos hfirst]
        rcases ht with ⟨hl,-⟩|⟨-,h⟩|⟨-,h⟩
        · exact Or.inr (Or.inr (Or.inl ⟨by omega,by decide⟩))
        · omega
        · omega
      · rw [if_neg hfirst] at hd
        exact absurd hd.1 not_present_zero

/-- The sample's tables are in place under every bitmap that has their frames
in use. -/
theorem sampleTables_tabled {manager : MemoryManager} (hmemory : manager.memory=sampleMemory)
    (hkernel : KernelBitmap manager.bitmap) (hgeometry : Geometry manager.bitmap)
    (hreach : frames manager.bitmap*4096≤2^39)
    (hused : ∀ frame∈[16,17,18],bitAt manager.bitmap.storage frame=true) :
    Tabled sampleTables 0x12000 manager := by
  have hempty : ∀ i, i<512 → entryAt manager.memory 0x12000 i=0#64 := by
    intro i hi
    rw [hmemory]
    exact entryAt_sampleDirectory hi
  refine ⟨⟨hkernel,hgeometry,hreach,hmemory ▸ sampleTables_system,?_⟩,
    ⟨Or.inr (Or.inr ⟨rfl,rfl⟩),?_,?_⟩,?_⟩
  · intro level frame _ hclear ht
    have hframe : frame=16 ∨ frame=17 ∨ frame=18 := by
      rcases ht with ⟨-,h⟩|⟨-,h⟩|⟨-,h⟩ <;> omega
    rw [hused frame (by simpa using hframe)] at hclear
    cases hclear
  · intro i hi
    rw [hempty i hi]
    decide
  · intro i j hi _ hp
    rw [hempty i hi] at hp
    exact absurd hp not_present_zero
  · intro i hi
    exact (congrArg Narrow (hempty i hi)).mpr (getField_zero (by decide))

/-- The sample is a state after `init`. -/
theorem sampleManager_afterInit : AfterInit ⟨sampleManager,[]⟩ := by
  have htabled : Tabled sampleTables 0x12000 sampleManager :=
    sampleTables_tabled rfl ⟨rfl,rfl,rfl⟩ ⟨by decide,fun _ => rfl,by decide,by decide⟩ (by decide)
      (by decide)
  have hwired : Wired sampleTables sampleManager :=
    ⟨htabled,Or.inl ⟨rfl,rfl⟩,by decide +kernel,by decide +kernel,by decide +kernel⟩
  refine ⟨⟨sampleTables,hwired⟩,?_,?_,rfl,rfl⟩
  · intro address ha he
    have hstart : windowStart≤address := le_trans (by decide) ha
    rw [hwired.kernelWalk_eq hstart he]
    refine walkFrom_absent ?_
    have hempty := entryAt_sampleDirectory (indexAt_lt 1 address)
    exact (congrArg (fun entry => ¬Present entry) hempty).mpr not_present_zero
  · exact ⟨by decide,by decide,by decide⟩

/-- A page, a range and another page at the start of the heap. -/
theorem heap_translated_sample :
    Each heapStep InWindow ⟨sampleManager,[]⟩
        [.allocateKernelHeapPage,.allocateKernelHeapPages 3,.allocateKernelHeapPage] ∧
      Always heapStep Translated ⟨sampleManager,[]⟩
        [.allocateKernelHeapPage,.allocateKernelHeapPages 3,.allocateKernelHeapPage] ∧
      Each heapStep Undisturbed ⟨sampleManager,[]⟩
        [.allocateKernelHeapPage,.allocateKernelHeapPages 3,.allocateKernelHeapPage] := by
  have hw : Each heapStep InWindow ⟨sampleManager,[]⟩
      [.allocateKernelHeapPage,.allocateKernelHeapPages 3,.allocateKernelHeapPage] := by
    decide +kernel
  exact ⟨hw,heap_translated sampleManager_afterInit hw⟩

/-- Calls for no pages take one page of the address space each and do nothing
else. -/
theorem run_zeroPages {state : HeapState} (hs : SpaceOk state.manager.heapSpace) {n : ℕ}
    (hn : n≤ state.manager.heapSpace.freePages) :
    run heapStep state (List.replicate n (.allocateKernelHeapPages 0))=
      some ⟨{state.manager with heapSpace := {state.manager.heapSpace with
        nextAddress := state.manager.heapSpace.nextAddress+n*4096
        freePages := state.manager.heapSpace.freePages-n}},state.handed⟩ := by
  induction n generalizing state with
  | zero => simp only [List.replicate_zero,run,Nat.zero_mul,Nat.add_zero,Nat.sub_zero]
  | succ n ih =>
    have hbound := hs.bound
    have hstart := hs.start_le
    have haligned := hs.aligned
    have hne : state.manager.heapSpace.freePages≠0 := by omega
    have hnext : u64 (state.manager.heapSpace.nextAddress+Page)=
        state.manager.heapSpace.nextAddress+4096 := by
      unfold Page
      exact u64_of_lt (by omega)
    have hstep : heapStep state (.allocateKernelHeapPages 0)=
        some ⟨{state.manager with heapSpace := {state.manager.heapSpace with
          nextAddress := state.manager.heapSpace.nextAddress+4096
          freePages := state.manager.heapSpace.freePages-1}},state.handed⟩ := by
      simp only [heapStep,allocateKernelHeapPages,takePages,takePage,if_neg hne,hnext,
        Nat.zero_min,Nat.zero_sub,takePagesLoop,allocateKernelHeapPagesLoop,List.range_zero,
        List.map_nil,List.nil_append]
    rw [List.replicate_succ,run,hstep,Option.bind_some,ih]
    · dsimp only
      rw [Nat.add_assoc _ 4096,Nat.sub_sub,show 4096+n*4096=(n+1)*4096 by omega,
        Nat.add_comm 1 n]
    · refine ⟨?_,?_,?_⟩
      · dsimp only
        omega
      · dsimp only
        omega
      · dsimp only
        omega
    · dsimp only
      omega

/-- Once the heap has used up the window, the page it hands out next is
written into the directory entry of another address and the hardware does not
find it. -/
theorem heap_not_always_translated : ¬∀ (state : HeapState) (actions : List HeapAction),
    AfterInit state →
    Always heapStep Translated state actions ∧ Each heapStep Undisturbed state actions := by
  intro h
  obtain ⟨ha,-⟩ := h ⟨sampleManager,[]⟩
    (List.replicate 0x3fe00 (.allocateKernelHeapPages 0)++[.allocateKernelHeapPage])
    sampleManager_afterInit
  obtain ⟨last,hlast,hhanded,htranslated⟩ := ha.final
  rw [run_append,run_zeroPages sampleManager_afterInit.space (by decide),Option.bind_some]
    at hlast
  have hpage : (run heapStep ⟨{sampleManager with heapSpace := {sampleManager.heapSpace with
      nextAddress := sampleManager.heapSpace.nextAddress+0x3fe00*4096
      freePages := sampleManager.heapSpace.freePages-0x3fe00}},[]⟩
      [.allocateKernelHeapPage]).map (fun state => (state.handed,
        state.manager.mapped.map (fun pair => decide (kernelWalk state.manager pair.1=none))))=
      some ([0xffffffffc0000000],[true]) := by decide +kernel
  rw [hlast,Option.map_some,Option.some.injEq,Prod.mk.injEq] at hpage
  obtain ⟨hone,hnone⟩ := hpage
  obtain ⟨frame,hmapped⟩ := hhanded 0xffffffffc0000000 (by rw [hone]; exact List.mem_cons_self)
  have hwalk := htranslated _ hmapped
  have hlost : decide (kernelWalk last.manager 0xffffffffc0000000=none)∈[true] := by
    rw [← hnone]
    exact List.mem_map.mpr ⟨_,hmapped,rfl⟩
  rw [List.mem_singleton,decide_eq_true_eq] at hlost
  rw [hlost] at hwalk
  cases hwalk

end WorkbenchOS.KernelHeap
