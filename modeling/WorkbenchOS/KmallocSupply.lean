import WorkbenchOS.HeapAddresses
import WorkbenchOS.HeapAtomicity
import WorkbenchOS.KmallocHeap
import WorkbenchOS.SlabAllocator

/-!
# The heap with what supplies it

`KmallocHeap` takes the objects of its sub-heaps from a slab and their
storage from the memory manager. `grow` ignores whether the storage could be
had and puts the new sub-heap at the head of the list either way. The storage
of all sub-heaps comes from one address space that never hands out an address
twice, so the sub-heaps on the list never overlap.
-/

namespace WorkbenchOS.KmallocSupply

open ByteMemory LibStd TransitionRuns FrameBitmap MemoryManagement HeapAddresses
open KmallocHeap (Descriptor Heap attempts canAllocate descriptorOf firstSubHeap unconstructed)
open KmallocSubHeap (SubHeap subHeapSize)
open SlabAllocator (Slab)

/-- `KmallocHeap`, its slab and the memory manager. The slab's page is one of
its own; no sub-heap's storage reaches it. -/
structure System where
  /-- `m_sub_heaps` and the memory of the sub-heaps. -/
  heap : Heap
  /-- `m_sub_heap_allocator`. -/
  slab : Slab
  /-- The memory of the slab's page. -/
  slabMemory : Memory
  /-- The memory manager. -/
  manager : MemoryManager

/-- Bytes of a `KmallocSubHeap` object: four pointers and two sizes. -/
def sizeofKmallocSubHeap : ℕ := 48

/-- Pages `KmallocSubHeap::initialise` asks for. -/
def subHeapPages : ℕ := subHeapSize/Page

/-- `KmallocHeap::grow`: an object of the slab, and `KmallocSubHeap::initialise`
on it, whose failure leaves the link to the next free object in the first
word. -/
def grow (system : System) : Option (Except Error Unit×System) :=
  match SlabAllocator.allocate system.slab system.slabMemory with
  | none => none
  | some (.error error,slabMemory) => some (.error error,{system with slabMemory := slabMemory})
  | some (.ok object,slabMemory) =>
    match allocateKernelHeapPages system.manager subHeapPages with
    | (.error _,manager) =>
      let failed := unconstructed (SlabAllocator.word slabMemory object)
      some (.ok (),{system with
        heap := {system.heap with subHeaps := failed::system.heap.subHeaps}
        slabMemory := slabMemory
        manager := manager})
    | (.ok address,manager) =>
      let fresh := KmallocSubHeap.initialise system.heap.memory address
      some (.ok (),{system with
        heap := ⟨fresh.memory,descriptorOf fresh::system.heap.subHeaps⟩
        slabMemory := slabMemory
        manager := manager})

/-- `KmallocHeap::initialise` once `get_or_create_slab` has returned the slab.
The first sub-heap is made the way `grow` makes the later ones. -/
def initialise (memory : Memory) (slab : Slab) (slabMemory : Memory) (manager : MemoryManager) :
    Option (Except Error Unit×System) :=
  grow ⟨⟨memory,[]⟩,slab,slabMemory,manager⟩

/-- `KmallocHeap::allocate(size, attempt)` up to the call of the sub-heap that
claims the bytes, by the number of attempts that remain: the sub-heap with
those before and after it on the list. -/
def findSubHeap (size : ℕ) : (remaining : ℕ)→System→
    Option (Except Error (List Descriptor×Descriptor×List Descriptor)×System)
  | 0,system => some (.error (.fromCode 1),system)
  | remaining+1,system =>
    match firstSubHeap (canAllocate size) system.heap.subHeaps with
    | some found => some (.ok found,system)
    | none =>
      match grow system with
      | none => none
      | some (.error error,after) => some (.error error,after)
      | some (.ok _,after) => findSubHeap size remaining after

/-- A sub-heap's answer, with the sub-heap put back in its place. -/
def replaced (system : System) (front back : List Descriptor) {α : Type}
    (answer : α×SubHeap) : α×System :=
  (answer.1,{system with heap := ⟨answer.2.memory,front++descriptorOf answer.2::back⟩})

/-- `KmallocHeap::allocate(size)`. -/
def allocate (system : System) (size : ℕ) : Option (Except Error ℕ×System) :=
  if size=0 then some (.error (.withMessage "Cannot allocate zero byte buffer"),system)
  else
    match findSubHeap size attempts system with
    | none => none
    | some (.error error,after) => some (.error error,after)
    | some (.ok (front,descriptor,back),after) =>
      (KmallocSubHeap.allocate (descriptor.over after.heap.memory) size).map
        (replaced after front back)

/-- `KmallocHeap::free`. -/
def free (system : System) (address : ℕ) : Option (Except Error Unit×System) :=
  (KmallocHeap.free system.heap address).map
    (fun answer => (answer.1,{system with heap := answer.2}))

/-- The storage of the sub-heap that `allocate` would ask. -/
def server (system : System) (size : ℕ) : Option ℕ :=
  match findSubHeap size attempts system with
  | some (.ok (_,descriptor,_),_) => some descriptor.storage
  | _ => none

/-- A pointer that was returned, and the storage of the sub-heap that returned
it. -/
structure Returned where
  /-- The pointer. -/
  pointer : ℕ
  /-- `m_storage` of the sub-heap. -/
  server : Option ℕ

/-- The heap and the pointers it has returned so far. -/
structure State where
  /-- The heap. -/
  system : System
  /-- The pointers, the latest first. -/
  returned : List Returned

/-- What the kernel does. -/
inductive Action where
  /-- `KmallocHeap::allocate`. -/
  | allocate (size : ℕ)
  /-- `KmallocHeap::free`. -/
  | free (address : ℕ)
  /-- A client stores a byte into the memory of a sub-heap. -/
  | store (address : ℕ) (value : UInt8)
  /-- Another part of the kernel calls `allocate_kernel_heap_page`. -/
  | kernelPage

/-- One action. -/
def step (state : State) : Action→Option State
  | .allocate size => (allocate state.system size).map (fun answer => match answer.1 with
    | .ok pointer => ⟨answer.2,⟨pointer,server state.system size⟩::state.returned⟩
    | .error _ => {state with system := answer.2})
  | .free address => (free state.system address).map (fun answer =>
      {state with system := answer.2})
  | .store address value => some {state with system := {state.system with
      heap := {state.system.heap with memory := fun x =>
        if x=address then value else state.system.heap.memory x}}}
  | .kernelPage => some {state with system := {state.system with
      manager := (allocateKernelHeapPage state.system.manager).2}}

section Manager

variable {manager : MemoryManager}

theorem ensurePageTable_heapSpace (stores : BitVec 64→ℕ→BitVec 64) (directory index : ℕ) :
    (ensurePageTable stores manager directory index).2.heapSpace=manager.heapSpace := by
  unfold ensurePageTable
  split
  · rfl
  · split
    · rename_i error after hf
      exact congrArg (fun outcome => outcome.2.heapSpace) hf.symm
    · rename_i frame after hf
      exact congrArg (fun outcome => outcome.2.heapSpace) hf.symm

theorem getKernelPageTableEntry_heapSpace (address : ℕ) :
    (getKernelPageTableEntry manager address).2.heapSpace=manager.heapSpace := by
  have htable := @ensurePageTable_heapSpace manager kernelDirectoryEntry
    manager.kernelPageDirectory
  unfold getKernelPageTableEntry
  split
  · rfl
  · rename_i index _
    have hindex := htable index
    split
    · rename_i he
      rwa [he] at hindex
    · rename_i he
      rw [he] at hindex
      dsimp only
      split <;> exact hindex

/-- Mapping a page takes no heap address. -/
theorem mapKernelPageDirectory_heapSpace (physicalAddress address : ℕ) :
    (mapKernelPageDirectory manager physicalAddress address).2.heapSpace=manager.heapSpace := by
  have hentry := @getKernelPageTableEntry_heapSpace manager address
  unfold mapKernelPageDirectory
  split
  · rename_i he
    rwa [he] at hentry
  · rename_i he
    rwa [he] at hentry

/-- Neither does the loop over the pages of a range. -/
theorem pagesLoop_heapSpace (range remaining i : ℕ) :
    (allocateKernelHeapPagesLoop range remaining i manager).2.heapSpace=manager.heapSpace := by
  induction remaining generalizing i manager with
  | zero => rfl
  | succ remaining ih =>
    rw [allocateKernelHeapPagesLoop]
    split
    · rename_i hf
      exact congrArg (fun outcome => outcome.2.heapSpace) hf.symm
    · rename_i frame framed hf
      have hframed : framed.heapSpace=manager.heapSpace :=
        congrArg (fun outcome => outcome.2.heapSpace) hf.symm
      have hmap := @mapKernelPageDirectory_heapSpace framed frame (u64 (range+i*Page))
      split
      · rename_i he
        rw [he] at hmap
        exact hmap.trans hframed
      · rename_i he
        rw [he] at hmap
        exact (ih (i+1)).trans (hmap.trans hframed)

/-- The loop succeeds when twice as many frames are left as pages are wanted: a
page takes one, and one more for its table. -/
theorem pagesLoop_supplied {tables : ℕ→ℕ→Prop} (range remaining first : ℕ)
    (h : PageMapping.Tabled tables manager.kernelPageDirectory manager)
    (hlt : manager.bitmap.freePages<2^64)
    (hf : 2*remaining≤HeapAtomicity.framesLeft manager.bitmap) : ∃ larger after,
      allocateKernelHeapPagesLoop range remaining first manager=(.ok (),after) ∧
      PageMapping.Tabled larger after.kernelPageDirectory after ∧
      after.bitmap.freePages<2^64 ∧
      HeapAtomicity.framesLeft manager.bitmap≤
        HeapAtomicity.framesLeft after.bitmap+2*remaining := by
  induction remaining generalizing tables first manager with
  | zero => exact ⟨tables,manager,rfl,h,hlt,le_rfl⟩
  | succ remaining ih =>
    rcases HeapAtomicity.allocateFrame_left h hlt with
      ⟨hzero,-⟩|⟨frame,framed,hnext,hframe,-,hleft,hcount,ht,hs,-⟩
    · omega
    have hreach := h.backed.reach
    have htracked := hnext.tracked
    rw [← hs.directory_eq] at ht
    rcases HeapAtomicity.mapKernelPageDirectory_left ht hcount (u64 (range+first*Page))
      (Nat.mul_mod_left frame 4096) (by omega) with
      ⟨-,hzero,-⟩|⟨larger,after,hmap,ht',hd,-,hcount',hleft',-⟩
    · omega
    rw [← hd] at ht'
    have hone : HeapAtomicity.framesLeft framed.bitmap≤
        HeapAtomicity.framesLeft after.bitmap+1 := by
      rw [← hleft']
      split <;> omega
    obtain ⟨last,done,hloop,htables,hdone,hrest⟩ := ih (first+1) ht' hcount' (by omega)
    refine ⟨last,done,?_,htables,hdone,by omega⟩
    rw [KernelHeap.pagesLoop_page hframe hmap]
    exact hloop

/-- Several pages take their addresses from the next one on, or fail and lose
some. -/
theorem allocateKernelHeapPages_space (h : manager.heapSpace.nextAddress<2^64)
    (hfree : manager.heapSpace.freePages< intIterations) {pageCount : ℕ} (hpages : 1≤pageCount) :
    (∃ after,allocateKernelHeapPages manager pageCount=(.ok manager.heapSpace.nextAddress,after) ∧
      pageCount≤ manager.heapSpace.freePages ∧ after.heapSpace=taken manager.heapSpace pageCount) ∨
    ∃ error after pages,allocateKernelHeapPages manager pageCount=(.error error,after) ∧
      pages≤ manager.heapSpace.freePages ∧ after.heapSpace=taken manager.heapSpace pages := by
  rcases @perform_cases _ (.takePages pageCount) h hfree hpages with
    ⟨hroom,htake⟩|⟨error,pages,hroom,htake⟩
  · have htake' : takePages manager.heapSpace pageCount=
        (.ok manager.heapSpace.nextAddress,taken manager.heapSpace pageCount) := htake
    have hloop := @pagesLoop_heapSpace
      {manager with heapSpace := taken manager.heapSpace pageCount}
      manager.heapSpace.nextAddress pageCount 0
    generalize hresult : allocateKernelHeapPagesLoop manager.heapSpace.nextAddress pageCount 0
      {manager with heapSpace := taken manager.heapSpace pageCount}=outcome at hloop
    obtain ⟨result,after⟩ := outcome
    rcases result with error|_
    · refine Or.inr ⟨error,after,pageCount,?_,hroom,hloop⟩
      simp only [allocateKernelHeapPages,htake',hresult]
    · refine Or.inl ⟨after,?_,hroom,hloop⟩
      simp only [allocateKernelHeapPages,htake',hresult]
  · have htake' : takePages manager.heapSpace pageCount=
        (.error error,taken manager.heapSpace pages) := htake
    refine Or.inr ⟨error,{manager with heapSpace := taken manager.heapSpace pages},pages,?_,hroom,
      rfl⟩
    simp only [allocateKernelHeapPages,htake']

/-- A single page takes one address or none. -/
theorem allocateKernelHeapPage_space (h : manager.heapSpace.nextAddress<2^64) :
    ∃ pages≤ manager.heapSpace.freePages,
      (allocateKernelHeapPage manager).2.heapSpace=taken manager.heapSpace pages := by
  unfold allocateKernelHeapPage
  split
  · rename_i hf
    refine ⟨0,Nat.zero_le _,?_⟩
    rw [taken_zero h]
    exact congrArg (fun outcome => outcome.2.heapSpace) hf.symm
  · rename_i frame framed hf
    have hframed : framed.heapSpace=manager.heapSpace :=
      congrArg (fun outcome => outcome.2.heapSpace) hf.symm
    by_cases hz : manager.heapSpace.freePages=0
    · refine ⟨0,Nat.zero_le _,?_⟩
      rw [hframed,takePage,if_pos hz,taken_zero h]
    · refine ⟨1,Nat.one_le_iff_ne_zero.mpr hz,?_⟩
      rw [hframed,takePage_eq hz]
      have hmap := @mapKernelPageDirectory_heapSpace
        {framed with heapSpace := taken manager.heapSpace 1} frame manager.heapSpace.nextAddress
      dsimp only
      split
      · rename_i he
        rwa [he] at hmap
      · rename_i he
        rwa [he] at hmap

end Manager

section Grow

variable {system : System} {slabMemory : Memory} {object : ℕ} {manager : MemoryManager}

/-- Without an object of the slab `grow` fails. -/
theorem grow_noSlot {error : Error}
    (hs : SlabAllocator.allocate system.slab system.slabMemory=some (.error error,slabMemory)) :
    grow system=some (.error error,{system with slabMemory := slabMemory}) := by
  rw [grow,hs]

/-- With an object but no storage `grow` puts a sub-heap without storage on the
list. -/
theorem grow_noMemory {error : PhysicalMemory.MemoryManagerError}
    (hs : SlabAllocator.allocate system.slab system.slabMemory=some (.ok object,slabMemory))
    (hp : allocateKernelHeapPages system.manager subHeapPages=(.error error,manager)) :
    grow system=some (.ok (),⟨⟨system.heap.memory,
      unconstructed (SlabAllocator.word slabMemory object)::system.heap.subHeaps⟩,
        system.slab,slabMemory,manager⟩) := by
  rw [grow,hs]
  dsimp only
  rw [hp]

/-- With both `grow` puts a fresh sub-heap on the list. -/
theorem grow_storage {address : ℕ}
    (hs : SlabAllocator.allocate system.slab system.slabMemory=some (.ok object,slabMemory))
    (hp : allocateKernelHeapPages system.manager subHeapPages=(.ok address,manager)) :
    grow system=some (.ok (),⟨⟨(KmallocSubHeap.initialise system.heap.memory address).memory,
      descriptorOf (KmallocSubHeap.initialise system.heap.memory address)::system.heap.subHeaps⟩,
        system.slab,slabMemory,manager⟩) := by
  rw [grow,hs]
  dsimp only
  rw [hp]

end Grow

/-- Storage and capacity of the sub-heaps. -/
def extents (subHeaps : List Descriptor) : List (ℕ×ℕ) :=
  subHeaps.map (fun descriptor => (descriptor.storage,descriptor.capacity))

/-- The page ranges of the sub-heaps that got their storage. -/
def ranges (extents : List (ℕ×ℕ)) : List (ℕ×ℕ) :=
  (extents.filter (fun extent => extent.2≠0)).map (fun extent => (extent.1,subHeapPages))

/-- The storage of the sub-heaps consists of ranges the heap address space,
which begins at `base`, has handed out; a sub-heap without storage has no
capacity. -/
structure Supplied (base : ℕ) (system : System) : Prop where
  /-- The address space begins behind the null address. -/
  base_pos : 0<base
  /-- It begins inside the address range. -/
  base_lt : base<2^64
  /-- Its pages can be counted. -/
  counted : (2^64-1-base)/Page< intIterations
  /-- The ranges are disjoint and below the next address. -/
  orderly : Orderly base (2^64-1-base)
    ⟨system.manager.heapSpace,ranges (extents system.heap.subHeaps)⟩
  /-- All of a sub-heap's pages, or none. -/
  capacity : ∀ extent∈extents system.heap.subHeaps,extent.2=0 ∨ extent.2=subHeapSize

/-- A sub-heap as `initialise` leaves it. -/
def Fresh (memory : Memory) (descriptor : Descriptor) : Prop :=
  ∃ before address,0<address ∧ address+subHeapSize<2^64 ∧
    descriptor.over memory=KmallocSubHeap.initialise before address

section Fresh

variable {memory : Memory} {address size : ℕ}

/-- A fresh sub-heap returns the start of its payload area, or fails when the
request is too large for it. -/
theorem fresh_allocate (ha : 0<address) (hstop : address+subHeapSize≤2^64) :
    (size≤KmallocHeap.largestRequest ∧ ∃ after,
      KmallocSubHeap.allocate (KmallocSubHeap.initialise memory address) size=
        some (.ok (address+KmallocSubHeap.sizeofAllocatedBlock),after)) ∨
    (¬size≤KmallocHeap.largestRequest ∧
      KmallocSubHeap.allocate (KmallocSubHeap.initialise memory address) size=
        some (.error (.fromCode 1),KmallocSubHeap.initialise memory address)) := by
  have hr := KmallocRuns.represents_initial memory ha hstop
  have hfuel : 1<KmallocSubHeap.walkFuel (KmallocSubHeap.initialise memory address) := by
    change 1< subHeapSize
    decide
  have hprevious :=
    (@KmallocOperations.newFreeBlock_spec memory address subHeapSize (by decide)).2.2.1
  have hfits : KmallocOperations.Fits (KmallocSubHeap.roundedSize size) ⟨address,subHeapSize⟩ ↔
      size≤KmallocHeap.largestRequest := by
    unfold KmallocOperations.Fits KmallocHeap.largestRequest KmallocSubHeap.roundedSize
      KmallocSubHeap.sizeofAllocatedBlock KmallocSubHeap.sizeofFreeBlock subHeapSize
    dsimp only
    split <;> omega
  by_cases hs : size≤KmallocHeap.largestRequest
  · obtain ⟨after,he,-⟩ := @KmallocOperations.allocate_some _ _ _ size ⟨address,subHeapSize⟩ [] []
      hr.layout hr.linked hr.head_eq hfuel (hfits.mpr hs) (by simp) hprevious
    exact Or.inl ⟨hs,_,he⟩
  · refine Or.inr ⟨hs,KmallocOperations.allocate_none hr.layout hr.linked hr.head_eq hfuel ?_⟩
    intro block hm
    cases List.mem_singleton.mp hm
    exact fun hf => hs (hfits.mp hf)

/-- A fresh sub-heap claims all its bytes. -/
theorem Fresh.available_eq {descriptor : Descriptor} (h : Fresh memory descriptor) :
    descriptor.available=subHeapSize := by
  obtain ⟨before,address,-,-,he⟩ := h
  exact congrArg SubHeap.available he

/-- It passes the test for every request up to that size. -/
theorem Fresh.canAllocate_iff {descriptor : Descriptor} (h : Fresh memory descriptor) :
    canAllocate size descriptor=true ↔ size≤ subHeapSize := by
  unfold canAllocate
  rw [h.available_eq]
  exact decide_eq_true_iff

/-- At the head of a list it is the first to pass. -/
theorem Fresh.first {descriptor : Descriptor} (h : Fresh memory descriptor)
    (hs : size≤ subHeapSize) (rest : List Descriptor) :
    firstSubHeap (canAllocate size) (descriptor::rest)=some ([],descriptor,rest) :=
  KmallocHeap.firstSubHeap_append (List.forall_mem_nil _) (h.canAllocate_iff.mpr hs)

/-- What `initialise` makes is fresh. -/
theorem fresh_initialise {before : Memory} (ha : 0<address) (hstop : address+subHeapSize<2^64) :
    Fresh (KmallocSubHeap.initialise before address).memory
      (descriptorOf (KmallocSubHeap.initialise before address)) :=
  ⟨before,address,ha,hstop,rfl⟩

/-- The sub-heap that claims the bytes is the one that is asked. -/
theorem allocate_claimed {system : System} {front back : List Descriptor}
    {descriptor : Descriptor} (hz : size≠0)
    (hf : firstSubHeap (canAllocate size) system.heap.subHeaps=some (front,descriptor,back)) :
    allocate system size=(KmallocSubHeap.allocate (descriptor.over system.heap.memory) size).map
      (replaced system front back) := by
  have hfound : findSubHeap size attempts system=some (.ok (front,descriptor,back),system) := by
    rw [attempts,findSubHeap,hf]
  rw [allocate,if_neg hz,hfound]

/-- A fresh sub-heap at the head of the list serves every request it has room
for. -/
theorem fresh_serves {system : System} {descriptor : Descriptor} {rest : List Descriptor}
    (hl : system.heap.subHeaps=descriptor::rest) (h : Fresh system.heap.memory descriptor)
    (hz : size≠0) (hs : size≤KmallocHeap.largestRequest) :
    ∃ pointer after,allocate system size=some (.ok pointer,after) := by
  have hf : firstSubHeap (canAllocate size) system.heap.subHeaps=some ([],descriptor,rest) := by
    rw [hl]
    exact h.first (hs.trans (Nat.sub_le _ _)) rest
  obtain ⟨before,address,hpos,hstop,he⟩ := h
  obtain ⟨-,after,hr⟩ := (@fresh_allocate before address size hpos hstop.le).resolve_right
    (fun hno => hno.1 hs)
  rw [allocate_claimed hz hf,he,hr]
  exact ⟨_,_,rfl⟩

end Fresh

section Supply

variable {base : ℕ} {system after : System}

/-- The storage of a sub-heap ends inside the address space. -/
theorem Supplied.stop_lt (h : Supplied base system) {extent : ℕ×ℕ}
    (hm : extent∈extents system.heap.subHeaps) (hc : extent.2≠0) :
    base≤extent.1 ∧ extent.1+subHeapSize<2^64 := by
  have hr : (extent.1,subHeapPages)∈ranges (extents system.heap.subHeaps) := by
    refine List.mem_map.mpr ⟨extent,List.mem_filter.mpr ⟨hm,?_⟩,rfl⟩
    exact decide_eq_true hc
  have hi := h.orderly.separate.inside _ hr
  have hlt := h.orderly.separate.next_le
  have hbase := h.orderly.base_le
  rw [show subHeapPages*Page=subHeapSize by decide] at hi
  unfold subHeapSize at hi ⊢
  omega

/-- The next heap address is below the end of the address space. -/
theorem Supplied.next_lt (h : Supplied base system) :
    system.manager.heapSpace.nextAddress<2^64 ∧
      system.manager.heapSpace.freePages< intIterations := by
  have hcounted := h.counted
  have hnext := h.orderly.separate.next
  have hle := h.orderly.separate.next_le
  have hbase := h.orderly.base_le
  rw [Page] at hnext hcounted
  have hlt := h.base_lt
  dsimp only at hnext hle hbase
  omega

/-- Nothing but the extents and the address space matters. -/
theorem Supplied.congr (h : Supplied base system)
    (he : extents after.heap.subHeaps=extents system.heap.subHeaps)
    (hs : after.manager.heapSpace=system.manager.heapSpace) : Supplied base after := by
  refine ⟨h.base_pos,h.base_lt,h.counted,?_,?_⟩
  · rw [he,hs]
    exact h.orderly
  · rw [he]
    exact h.capacity

/-- Pages that are taken for something else are lost to the sub-heaps. -/
theorem Supplied.lose (h : Supplied base system) {pages : ℕ}
    (hpages : pages≤ system.manager.heapSpace.freePages)
    (hr : ranges (extents after.heap.subHeaps)=ranges (extents system.heap.subHeaps))
    (hc : ∀ extent∈extents after.heap.subHeaps,extent.2=0 ∨ extent.2=subHeapSize)
    (hs : after.manager.heapSpace=taken system.manager.heapSpace pages) : Supplied base after := by
  have hlt := h.base_lt
  refine ⟨h.base_pos,hlt,h.counted,?_,hc⟩
  rw [hr,hs]
  exact h.orderly.lose (by omega) hpages

/-- The storage of a new sub-heap is the next range. -/
theorem Supplied.grant (h : Supplied base system)
    (hpages : subHeapPages≤ system.manager.heapSpace.freePages)
    (he : extents after.heap.subHeaps=
      (system.manager.heapSpace.nextAddress,subHeapSize)::extents system.heap.subHeaps)
    (hs : after.manager.heapSpace=taken system.manager.heapSpace subHeapPages) :
    Supplied base after := by
  have hlt := h.base_lt
  have hr : ranges (extents after.heap.subHeaps)=
      (system.manager.heapSpace.nextAddress,subHeapPages)::ranges (extents system.heap.subHeaps) := by
    rw [he]
    rfl
  refine ⟨h.base_pos,hlt,h.counted,?_,?_⟩
  · rw [hr,hs]
    exact h.orderly.grant (by omega) hpages
  · rw [he]
    exact List.forall_mem_cons.mpr ⟨Or.inr rfl,h.capacity⟩

/-- Growing puts one sub-heap at the head of the list: a fresh one, or one
without storage that claims no bytes. -/
theorem Supplied.grow (h : Supplied base system) {result : Except Error Unit}
    (hg : grow system=some (result,after)) : Supplied base after ∧
      ((∃ error,result=.error error ∧ after.heap=system.heap) ∨
        ∃ descriptor,result=.ok () ∧
          after.heap.subHeaps=descriptor::system.heap.subHeaps ∧
          (descriptor.available=0 ∨ Fresh after.heap.memory descriptor)) := by
  obtain ⟨hlt,hfree⟩ := h.next_lt
  rw [KmallocSupply.grow] at hg
  split at hg
  · cases hg
  · rename_i error slabMemory _
    cases hg
    exact ⟨h.congr rfl rfl,Or.inl ⟨error,rfl,rfl⟩⟩
  · rename_i object slabMemory _
    rcases allocateKernelHeapPages_space hlt hfree (by decide : 1≤ subHeapPages) with
      ⟨manager,hp,hroom,hspace⟩|⟨error,manager,pages,hp,hroom,hspace⟩
    · rw [hp] at hg
      cases hg
      have hpos := h.base_pos
      have hend := h.base_lt
      have hstart := h.orderly.base_le
      have hstop := (h.orderly.taken_space (by omega) hroom).2.2
      rw [show subHeapPages*4096=subHeapSize by decide] at hstop
      dsimp only at hstop hstart
      exact ⟨h.grant hroom rfl hspace,Or.inr ⟨_,rfl,rfl,Or.inr ⟨system.heap.memory,
        system.manager.heapSpace.nextAddress,hpos.trans_le hstart,by omega,rfl⟩⟩⟩
    · rw [hp] at hg
      cases hg
      exact ⟨h.lose hroom rfl (List.forall_mem_cons.mpr ⟨Or.inl rfl,h.capacity⟩) hspace,
        Or.inr ⟨_,rfl,rfl,Or.inl rfl⟩⟩

/-- The sub-heap found is on the list. It is the first that claimed the bytes
before the call, or a fresh one. -/
theorem Supplied.findSubHeap {size remaining : ℕ} (hs : 1≤ size) (h : Supplied base system)
    {result : Except Error (List Descriptor×Descriptor×List Descriptor)}
    (hf : findSubHeap size remaining system=some (result,after)) :
    Supplied base after ∧ (∃ more,after.heap.subHeaps=more++system.heap.subHeaps) ∧
      ∀ front descriptor back,result=.ok (front,descriptor,back) →
        after.heap.subHeaps=front++descriptor::back ∧
        ((after=system ∧
            firstSubHeap (canAllocate size) system.heap.subHeaps=some (front,descriptor,back)) ∨
          Fresh after.heap.memory descriptor) := by
  induction remaining generalizing system with
  | zero =>
    cases hf
    exact ⟨h,⟨[],rfl⟩,fun _ _ _ he => by cases he⟩
  | succ remaining ih =>
    rw [KmallocSupply.findSubHeap] at hf
    split at hf
    · rename_i found hfirst
      cases hf
      refine ⟨h,⟨[],rfl⟩,?_⟩
      intro front descriptor back he
      cases he
      exact ⟨(KmallocHeap.firstSubHeap_eq_some hfirst).1,Or.inl ⟨rfl,hfirst⟩⟩
    · rename_i hfirst
      split at hf
      · cases hf
      · rename_i error grown hg
        cases hf
        obtain ⟨hgrown,⟨_,-,he⟩|⟨_,hok,-⟩⟩ := h.grow hg
        · exact ⟨hgrown,⟨[],congrArg _ he⟩,fun _ _ _ hn => by cases hn⟩
        · cases hok
      · rename_i grown hg
        obtain ⟨hgrown,⟨_,hno,-⟩|⟨fresh,-,hlist,hfresh⟩⟩ := h.grow hg
        · cases hno
        obtain ⟨hafter,⟨more,hmore⟩,hfound⟩ := ih hgrown hf
        refine ⟨hafter,⟨more++[fresh],?_⟩,?_⟩
        · rw [hmore,hlist,List.append_assoc,List.singleton_append]
        intro front descriptor back he
        obtain ⟨hin,hcases⟩ := hfound front descriptor back he
        refine ⟨hin,Or.inr ?_⟩
        rcases hcases with ⟨rfl,hagain⟩|hdone
        · -- none of the older sub-heaps claims the bytes, so it is the new one
          rw [hlist,firstSubHeap,hfirst] at hagain
          split at hagain
          · rename_i hclaim
            cases hagain
            rcases hfresh with hzero|hfresh
            · have hle : size≤fresh.available := of_decide_eq_true hclaim
              omega
            · exact hfresh
          · cases hagain
        · exact hdone

end Supply

section Stock

variable {manager : MemoryManager} {system : System} {left : ℕ}

/-- The memory manager has addresses and frames for this many more sub-heaps of
4096 pages, even if every page needed a table of its own. -/
structure Stocked (left : ℕ) (manager : MemoryManager) : Prop where
  /-- The tables are in place. -/
  tabled : ∃ tables,PageMapping.Tabled tables manager.kernelPageDirectory manager
  /-- The free pages are a 64-bit number. -/
  counted : manager.bitmap.freePages<2^64
  /-- The frames. -/
  frames : 8192*left≤HeapAtomicity.framesLeft manager.bitmap
  /-- The pages of the address space. -/
  addresses : 4096*left≤ manager.heapSpace.freePages
  /-- It does not wrap around. -/
  space : manager.heapSpace.nextAddress+0x1000000*left<2^64

/-- It supplies the storage of one and keeps the rest. -/
theorem Stocked.pages (h : Stocked (left+1) manager) : ∃ after,
    allocateKernelHeapPages manager 4096=(.ok manager.heapSpace.nextAddress,after) ∧
      Stocked left after ∧
      after.heapSpace.nextAddress=manager.heapSpace.nextAddress+0x1000000 := by
  obtain ⟨⟨tables,ht⟩,hcounted,hframes,haddresses,hspace⟩ := h
  rw [Nat.mul_succ] at hframes haddresses hspace
  have henough : 2*4096≤HeapAtomicity.framesLeft manager.bitmap := by omega
  have hfits : manager.heapSpace.nextAddress+0x1000000<2^64 :=
    (Nat.add_le_add_left (Nat.le_add_left _ _) _).trans_lt hspace
  have hnext : (taken manager.heapSpace 4096).nextAddress=
      manager.heapSpace.nextAddress+0x1000000 := u64_of_lt hfits
  have htake := takePages_eq (show manager.heapSpace.nextAddress<2^64 by omega) 4096
  rw [show pagesTried 4096=4096 by decide,if_pos (by omega)] at htake
  have htabled : PageMapping.Tabled tables manager.kernelPageDirectory
      {manager with heapSpace := taken manager.heapSpace 4096} := ht.of_same rfl rfl
  generalize hspaced : {manager with heapSpace := taken manager.heapSpace 4096}=spaced at htabled
  have hbitmap : spaced.bitmap=manager.bitmap := by rw [← hspaced]
  have hdirectory : spaced.kernelPageDirectory=manager.kernelPageDirectory := by rw [← hspaced]
  have hheld : spaced.heapSpace=taken manager.heapSpace 4096 := by rw [← hspaced]
  rw [← hdirectory] at htabled
  rw [← hbitmap] at hcounted hframes henough
  obtain ⟨larger,after,hloop,ht',hcounted',hleft⟩ :=
    pagesLoop_supplied manager.heapSpace.nextAddress 4096 0 htabled hcounted henough
  have hkept := @pagesLoop_heapSpace spaced manager.heapSpace.nextAddress 4096 0
  rw [hloop,hheld] at hkept
  dsimp only at hkept
  have hfree : after.heapSpace.freePages=manager.heapSpace.freePages-4096 := by
    rw [hkept]
    rfl
  rw [← hkept] at hnext
  refine ⟨after,?_,⟨⟨larger,ht'⟩,hcounted',by omega,by omega,by omega⟩,hnext⟩
  simp only [allocateKernelHeapPages,htake,hspaced,hloop]

/-- So has the slab objects for them. -/
structure Plentiful (left : ℕ) (system : System) : Prop where
  /-- The storage. -/
  stocked : Stocked left system.manager
  /-- The page holds objects of the size. -/
  fitting : SlabAllocator.Fitting system.slab.head sizeofKmallocSubHeap
  /-- The free objects. -/
  page : ∃ free live,SlabAllocator.PageInvariant system.slabMemory system.slab.head
    sizeofKmallocSubHeap free live ∧ left≤free.length

/-- The heap with a fresh sub-heap at its head. -/
def withSubHeap (heap : Heap) (address : ℕ) : Heap where
  memory := (KmallocSubHeap.initialise heap.memory address).memory
  subHeaps := descriptorOf (KmallocSubHeap.initialise heap.memory address)::heap.subHeaps

/-- Growing puts the next storage at the head of the list. -/
theorem Plentiful.grow (h : Plentiful (left+1) system) : ∃ after,
    grow system=some (.ok (),after) ∧ Plentiful left after ∧
      after.heap=withSubHeap system.heap system.manager.heapSpace.nextAddress ∧
      after.manager.heapSpace.nextAddress=system.manager.heapSpace.nextAddress+0x1000000 := by
  obtain ⟨hstocked,hfitting,free,live,hpage,hlength⟩ := h
  obtain ⟨manager,hp,hleft,hnext⟩ := hstocked.pages
  rcases SlabAllocator.allocate_spec hfitting rfl hpage with
    ⟨rfl,-⟩|⟨object,rest,slabMemory,rfl,hslab,hpage'⟩
  · cases hlength
  · rw [List.length_cons] at hlength
    exact ⟨_,grow_storage hslab hp,⟨hleft,hfitting,rest,_,hpage',Nat.le_of_succ_le_succ hlength⟩,
      rfl,hnext⟩

/-- Nothing of this is in the heap. -/
theorem Plentiful.withHeap (h : Plentiful left system) (heap : Heap) :
    Plentiful left {system with heap := heap} := ⟨h.stocked,h.fitting,h.page⟩

/-- This many fresh sub-heaps, one behind the other in memory. -/
def withSubHeaps : (count : ℕ)→(address : ℕ)→Heap→Heap
  | 0,_,heap => heap
  | count+1,address,heap => withSubHeaps count (address+0x1000000) (withSubHeap heap address)

/-- A request that is larger than a sub-heap adds one at every attempt. -/
theorem Plentiful.findSubHeap {size remaining : ℕ} (h : Plentiful remaining system)
    (hs : subHeapSize<size)
    (hl : ∀ descriptor∈system.heap.subHeaps,descriptor.available≤ subHeapSize) : ∃ after,
    findSubHeap size remaining system=some (.error (.fromCode 1),after) ∧
      after.heap=withSubHeaps remaining system.manager.heapSpace.nextAddress system.heap := by
  induction remaining generalizing system with
  | zero => exact ⟨system,rfl,rfl⟩
  | succ remaining ih =>
    obtain ⟨grown,hg,hleft,hheap,hnext⟩ := h.grow
    have hnone : firstSubHeap (canAllocate size) system.heap.subHeaps=none :=
      KmallocHeap.firstSubHeap_none (fun descriptor hm =>
        decide_eq_false (Nat.not_le.mpr ((hl descriptor hm).trans_lt hs)))
    have hgrown : ∀ descriptor∈grown.heap.subHeaps,descriptor.available≤ subHeapSize := by
      rw [hheap]
      exact List.forall_mem_cons.mpr ⟨le_rfl,hl⟩
    obtain ⟨after,hf,hafter⟩ := ih hleft hgrown
    rw [hheap,hnext] at hafter
    refine ⟨after,?_,hafter⟩
    rw [KmallocSupply.findSubHeap,hnone,hg]
    exact hf

/-- The slab is not used up. -/
theorem Plentiful.freeObjects_ne (h : Plentiful (left+1) system) :
    SlabAllocator.freeObjects system.slabMemory system.slab.head≠0 := by
  obtain ⟨-,-,free,live,hpage,hlength⟩ := h
  rw [hpage.free_eq]
  omega

end Stock

section Sample

/-- The sample tables under 256 MiB of memory with the first MiB in use. The
first heap page is the slab's. -/
def roomyManager : MemoryManager where
  bitmap := ⟨4096,65536,65280,1024,262144,fun block => if block<4 then bitmapFull else 0#64,0⟩
  memory := KernelHeap.sampleMemory
  heapSpace := taken (heapAddressSpace 0xffffffff80500000) 1
  kernelPageDirectory := 0x12000
  pml4 := 0x10000
  mapped := []

/-- The slab of the sub-heap objects, with its page. -/
def roomySlab : Slab×Memory :=
  SlabAllocator.initialise (fun _ => 0) 0xffffffff80500000 sizeofKmallocSubHeap

/-- The tables are in place. -/
theorem roomyManager_tabled :
    PageMapping.Tabled KernelHeap.sampleTables roomyManager.kernelPageDirectory roomyManager :=
  KernelHeap.sampleTables_tabled rfl ⟨rfl,rfl,rfl⟩
    ⟨by decide,fun _ => rfl,by decide +kernel,by decide⟩ (by decide +kernel) (by decide)

/-- There are addresses and frames for four sub-heaps. -/
theorem roomyManager_stocked : Stocked 4 roomyManager := by
  refine ⟨⟨_,roomyManager_tabled⟩,by decide +kernel,?_,by decide +kernel,by decide +kernel⟩
  have hclear : Finset.Ico 256 65536⊆
      WordBitmaps.clearBits roomyManager.bitmap.storage
        (FrameOperations.frames roomyManager.bitmap) := by
    intro frame hm
    rw [Finset.mem_Ico] at hm
    refine WordBitmaps.mem_clearBits.mpr ⟨hm.2,?_⟩
    have hword : roomyManager.bitmap.storage (frame/64)=0#64 := if_neg (by omega)
    rw [WordBitmaps.bitAt,hword]
    exact BitVec.getLsbD_zero
  have hcard := Finset.card_le_card hclear
  have hfree : roomyManager.bitmap.freePages=65280 := by decide +kernel
  have hpages : subHeapPages=4096 := by decide
  rw [Nat.card_Ico] at hcard
  rw [HeapAtomicity.framesLeft,hfree]
  omega

/-- A sub-heap object fits a slab page. -/
theorem roomy_fitting : SlabAllocator.Fitting 0xffffffff80500000 sizeofKmallocSubHeap :=
  ⟨by decide,by decide,by decide,by decide⟩

/-- `initialise` gets the storage of the first sub-heap, and there is enough
left for three more. -/
theorem roomy_initialised : ∃ system,
    initialise (fun _ => 0) roomySlab.1 roomySlab.2 roomyManager=some (.ok (),system) ∧
      system.heap=withSubHeap ⟨fun _ => 0,[]⟩ 0xffffffff80501000 ∧
      system.manager.heapSpace.nextAddress=0xffffffff81501000 ∧ Plentiful 3 system := by
  have hpage := SlabAllocator.initialise_spec (fun _ => 0) roomy_fitting
  have hlength : (SlabAllocator.slots 0xffffffff80500000 sizeofKmallocSubHeap).length=84 := by
    decide +kernel
  have hplentiful : Plentiful 4 ⟨⟨fun _ => 0,[]⟩,roomySlab.1,roomySlab.2,roomyManager⟩ :=
    ⟨roomyManager_stocked,roomy_fitting,_,_,hpage,by rw [hlength]; decide⟩
  have hnext : roomyManager.heapSpace.nextAddress=0xffffffff80501000 := by decide +kernel
  obtain ⟨system,hgrow,hleft,hheap,haddress⟩ := hplentiful.grow
  dsimp only at hheap haddress
  rw [hnext] at hheap haddress
  exact ⟨system,hgrow,hheap,haddress,hleft⟩

end Sample

end WorkbenchOS.KmallocSupply
