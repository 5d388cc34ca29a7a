import WorkbenchOS.KmallocDispatch

/-!
# What a failed allocation leaves behind

When no sub-heap claims the bytes of a request, the heap grows before it is
known whether growing can help, up to three times, and nothing is given back
when the request fails in the end. A request that some sub-heap claims, or
for which the slab has no object, fails without a trace. Once the memory
manager has failed to supply a sub-heap it supplies no other one.
-/

namespace WorkbenchOS.KmallocGrowth

open ByteMemory LibStd TransitionRuns FrameBitmap FrameOperations MemoryManagement PageMapping
open HeapAddresses HeapAtomicity KmallocSupply
open KmallocHeap (Descriptor attempts canAllocate descriptorOf firstSubHeap largestRequest)
open KmallocSubHeap (SubHeap subHeapSize)
open SlabAllocator (Fitting PageInvariant freeObjects)

/-- The heap is what it was: the list with its sub-heaps, all their bytes, and
with them the free lists, the slab and the pages. -/
structure Unchanged (before after : System) : Prop where
  /-- The list of sub-heaps and their objects. -/
  subHeaps : after.heap.subHeaps=before.heap.subHeaps
  /-- The bytes of the sub-heaps. -/
  memory : after.heap.memory=before.heap.memory
  /-- The slab's page. -/
  slab : after.slab=before.slab ∧ after.slabMemory=before.slabMemory
  /-- The frames, the heap addresses and the page tables. -/
  pages : Unaffected before.manager after.manager

/-- A failed request leaves the heap as it was. -/
def FailsUnchanged (system : System) (size : ℕ) : Prop :=
  ∀ error after,KmallocSupply.allocate system size=some (.error error,after) →
    Unchanged system after

/-- The request is for no bytes, a sub-heap claims to have them, the slab is
used up, or a fresh sub-heap has room for them and could be supplied. -/
def NothingLost (system : System) (size : ℕ) : Prop :=
  size=0 ∨ (∃ descriptor∈system.heap.subHeaps,canAllocate size descriptor=true) ∨
    freeObjects system.slabMemory system.slab.head=0 ∨
    (size≤largestRequest ∧ RangeBacked system.manager subHeapPages)

/-- No heap address or no frame is left. -/
def Starved (manager : MemoryManager) : Prop :=
  manager.heapSpace.freePages=0 ∨ framesLeft manager.bitmap=0

/-- The kernel page tables are in place and the free pages are a 64-bit number. -/
structure Managed (manager : MemoryManager) : Prop where
  /-- The tables. -/
  tabled : ∃ tables,Tabled tables manager.kernelPageDirectory manager
  /-- The count. -/
  counted : manager.bitmap.freePages<2^64

section Manager

variable {manager : MemoryManager}

/-- A starved manager has no pages for a range. -/
theorem Starved.not_rangeBacked (h : Starved manager) {pageCount : ℕ} (hp : 1≤pageCount) :
    ¬RangeBacked manager pageCount := by
  rintro ⟨hroom,hframes⟩
  rcases h with hz|hz <;> omega

/-- Only the address space differs. -/
theorem Managed.withSpace (h : Managed manager) (space : VirtualAddressSpace) :
    Managed {manager with heapSpace := space} := by
  obtain ⟨⟨tables,ht⟩,hc⟩ := h
  exact ⟨⟨tables,ht.of_same rfl rfl⟩,hc⟩

/-- Mapping keeps the tables in place; it fails only without a frame. -/
theorem Managed.map (h : Managed manager) (page : ℕ) {physicalAddress : ℕ}
    (ha : physicalAddress%4096=0) (hp : physicalAddress<2^52) :
    (framesLeft manager.bitmap=0 ∧ mapKernelPageDirectory manager physicalAddress page=
        (.error .allocatorError,manager)) ∨
      ∃ after,mapKernelPageDirectory manager physicalAddress page=(.ok (),after) ∧
        Managed after := by
  obtain ⟨⟨tables,ht⟩,hc⟩ := h
  rcases mapKernelPageDirectory_left ht hc page ha hp with
    ⟨-,hzero,hmap⟩|⟨larger,after,hmap,ht',hd,-,hc',-,-⟩
  · exact Or.inl ⟨hzero,hmap⟩
  · rw [← hd] at ht'
    exact Or.inr ⟨after,hmap,⟨larger,ht'⟩,hc'⟩

/-- Taking a frame keeps the tables in place. -/
theorem Managed.frame (h : Managed manager) :
    (framesLeft manager.bitmap=0 ∧ allocateFrame manager=(.error .allocatorError,manager)) ∨
      ∃ frame after,allocateFrame manager=(.ok (frame*4096),after) ∧ frame*4096<2^52 ∧
        Managed after := by
  obtain ⟨⟨tables,ht⟩,hc⟩ := h
  rcases allocateFrame_left ht hc with
    ⟨hzero,hf⟩|⟨frame,after,hnext,hf,-,-,hc',ht',hs,-⟩
  · exact Or.inl ⟨hzero,hf⟩
  · have hreach := ht.backed.reach
    have htracked := hnext.tracked
    rw [← hs.directory_eq] at ht'
    exact Or.inr ⟨frame,after,hf,by omega,⟨tables,ht'⟩,hc'⟩

/-- The page loop keeps the tables in place; it fails only when the frames are
used up. -/
theorem Managed.pagesLoop (h : Managed manager) (range remaining first : ℕ) :
    Managed (allocateKernelHeapPagesLoop range remaining first manager).2 ∧
      ∀ error,(allocateKernelHeapPagesLoop range remaining first manager).1=.error error →
        framesLeft (allocateKernelHeapPagesLoop range remaining first manager).2.bitmap=0 := by
  induction remaining generalizing first manager with
  | zero => exact ⟨h,fun _ he => by cases he⟩
  | succ remaining ih =>
    rcases h.frame with ⟨hzero,hf⟩|⟨frame,framed,hf,hlt,hframed⟩
    · rw [KernelHeap.pagesLoop_noFrame hf]
      exact ⟨h,fun _ _ => hzero⟩
    · rcases hframed.map (u64 (range+first*Page)) (Nat.mul_mod_left frame 4096) hlt with
        ⟨hzero,hmap⟩|⟨after,hmap,hafter⟩
      · rw [KernelHeap.pagesLoop_noTable hf hmap]
        exact ⟨hframed,fun _ _ => hzero⟩
      · rw [KernelHeap.pagesLoop_page hf hmap]
        exact ih hafter (first+1)

/-- A range of pages is supplied exactly when it is backed, and a manager that
fails to supply one is starved from then on. -/
theorem Managed.pages (h : Managed manager) (hnext : manager.heapSpace.nextAddress<2^64)
    (pageCount : ℕ) :
    (RangeBacked manager pageCount ∧ ∃ address after,
      allocateKernelHeapPages manager pageCount=(.ok address,after) ∧ Managed after) ∨
    (¬RangeBacked manager pageCount ∧ ∃ error after,
      allocateKernelHeapPages manager pageCount=(.error error,after) ∧ Managed after ∧
        Starved after) := by
  obtain ⟨tables,ht⟩ := h.tabled
  have hleft := allocateKernelHeapPages_left ht h.counted pageCount
  have htake := takePages_eq hnext pageCount
  by_cases hroom : pagesTried pageCount≤ manager.heapSpace.freePages
  · rw [if_pos hroom] at htake
    obtain ⟨hmanaged,hzero⟩ := (h.withSpace (taken manager.heapSpace (pagesTried pageCount))).pagesLoop
      manager.heapSpace.nextAddress pageCount 0
    generalize hloop : allocateKernelHeapPagesLoop manager.heapSpace.nextAddress pageCount 0
      {manager with heapSpace := taken manager.heapSpace (pagesTried pageCount)}=outcome
        at hmanaged hzero
    obtain ⟨result,after⟩ := outcome
    rcases result with error|_
    · have hcall : allocateKernelHeapPages manager pageCount=(.error error,after) := by
        simp only [allocateKernelHeapPages,htake,hloop]
      refine Or.inr ⟨?_,error,after,hcall,hmanaged,Or.inr (hzero error rfl)⟩
      intro hb
      rcases hleft with ⟨hz,-⟩|⟨-,_,_,hok⟩|⟨-,hno,-⟩
      · unfold pagesTried at hroom
        omega
      · rw [hcall] at hok
        cases hok
      · exact hno hb
    · have hcall : allocateKernelHeapPages manager pageCount=
          (.ok manager.heapSpace.nextAddress,after) := by
        simp only [allocateKernelHeapPages,htake,hloop]
      refine Or.inl ⟨?_,_,after,hcall,hmanaged⟩
      rcases hleft with ⟨-,hno⟩|⟨hb,-⟩|⟨-,-,_,_,hno,-⟩
      · rw [hcall] at hno
        cases hno
      · exact hb
      · rw [hcall] at hno
        cases hno
  · rw [if_neg hroom] at htake
    refine Or.inr ⟨fun hb => hroom hb.1,.genericError,
      {manager with heapSpace := taken manager.heapSpace manager.heapSpace.freePages},?_,
      h.withSpace _,Or.inl (Nat.sub_self _)⟩
    simp only [allocateKernelHeapPages,htake]

/-- A single page keeps the tables in place. -/
theorem Managed.page (h : Managed manager) : Managed (allocateKernelHeapPage manager).2 := by
  rcases h.frame with ⟨-,hf⟩|⟨frame,framed,hf,hlt,hframed⟩
  · simp only [allocateKernelHeapPage,hf]
    exact h
  · by_cases hz : framed.heapSpace.freePages=0
    · simp only [allocateKernelHeapPage,hf,takePage,hz,if_true]
      exact hframed.withSpace _
    · have hspaced := hframed.withSpace (taken framed.heapSpace 1)
      rcases hspaced.map framed.heapSpace.nextAddress (Nat.mul_mod_left frame 4096) hlt with
        ⟨-,hmap⟩|⟨after,hmap,hafter⟩
      · simp only [allocateKernelHeapPage,hf,takePage_eq hz,hmap]
        exact hspaced
      · simp only [allocateKernelHeapPage,hf,takePage_eq hz,hmap]
        exact hafter

end Manager

/-- What a run keeps: the sub-heaps have their storage, the slab's page is in
order and so are the tables of the memory manager. -/
structure Sound (base : ℕ) (system : System) : Prop where
  /-- The storage of the sub-heaps. -/
  supplied : Supplied base system
  /-- The memory manager. -/
  managed : Managed system.manager
  /-- The page holds objects of the size. -/
  fitting : Fitting system.slab.head sizeofKmallocSubHeap
  /-- The slab's page. -/
  page : ∃ free live,PageInvariant system.slabMemory system.slab.head sizeofKmallocSubHeap free live

/-- The heap states a run from `KmallocHeap::initialise` leads to, with the
heap address space, the tables and the slab as the boot code has set them
up. -/
def Reachable (system : System) : Prop :=
  ∃ base pages memory slabPage slabMemory manager result start actions returned,
    0xffffffff80000000≤base ∧ base<2^64 ∧ base%Page=0 ∧
    pages≤(heapAddressSpace base).freePages ∧
    manager.heapSpace=taken (heapAddressSpace base) pages ∧ Managed manager ∧
    Fitting slabPage sizeofKmallocSubHeap ∧
    initialise memory (SlabAllocator.initialise slabMemory slabPage sizeofKmallocSubHeap).1
      (SlabAllocator.initialise slabMemory slabPage sizeofKmallocSubHeap).2 manager=
        some (result,start) ∧
    run step ⟨start,[]⟩ actions=some ⟨system,returned⟩

section Steps

variable {base size : ℕ} {system : System}

/-- Growing a sound heap returns. It fails when the slab is used up; otherwise
the new sub-heap is fresh when its pages are there, and when they are not no
later one will get any. -/
theorem Sound.grow (h : Sound base system) : ∃ result after,
    KmallocSupply.grow system=some (result,after) ∧ Sound base after ∧
    ((freeObjects system.slabMemory system.slab.head=0 ∧ after=system ∧
        ∃ error,result=.error error) ∨
      (freeObjects system.slabMemory system.slab.head≠0 ∧ result=.ok () ∧ ∃ descriptor,
        after.heap.subHeaps=descriptor::system.heap.subHeaps ∧
        ((RangeBacked system.manager subHeapPages ∧ Fresh after.heap.memory descriptor) ∨
          (¬RangeBacked system.manager subHeapPages ∧ descriptor.available=0 ∧
            Starved after.manager)))) := by
  obtain ⟨hsupplied,hmanaged,hfitting,free,live,hpage⟩ := h
  have hgrow := fun result after => @Supplied.grow base system after hsupplied result
  rcases SlabAllocator.allocate_spec hfitting rfl hpage with
    ⟨rfl,hslab⟩|⟨object,rest,slabMemory,rfl,hslab,hpage'⟩
  · exact ⟨_,system,grow_noSlot hslab,⟨hsupplied,hmanaged,hfitting,[],live,hpage⟩,
      Or.inl ⟨hpage.free_eq,rfl,_,rfl⟩⟩
  · have hfree : freeObjects system.slabMemory system.slab.head≠0 := by
      rw [hpage.free_eq,List.length_cons]
      exact Nat.succ_ne_zero _
    rcases hmanaged.pages hsupplied.next_lt.1 subHeapPages with
      ⟨hb,address,manager,hp,hm⟩|⟨hb,error,manager,hp,hm,hstarved⟩
    · have hg := grow_storage hslab hp
      obtain ⟨hafter,⟨_,hno,-⟩|⟨descriptor,-,hl,hzero|hfresh⟩⟩ := hgrow _ _ hg
      · cases hno
      · have hd := (List.cons.inj hl).1
        rw [← hd] at hzero
        exact absurd hzero (by change ¬subHeapSize=0; decide)
      · exact ⟨_,_,hg,⟨hafter,hm,hfitting,_,_,hpage'⟩,Or.inr ⟨hfree,rfl,descriptor,hl,
          Or.inl ⟨hb,hfresh⟩⟩⟩
    · have hg := grow_noMemory hslab hp
      exact ⟨_,_,hg,⟨(hgrow _ _ hg).1,hm,hfitting,_,_,hpage'⟩,Or.inr ⟨hfree,rfl,_,rfl,
        Or.inr ⟨hb,rfl,hstarved⟩⟩⟩

/-- A sound heap finds a sub-heap or runs out of attempts. -/
theorem Sound.findSubHeap (h : Sound base system) (remaining : ℕ) : ∃ result after,
    KmallocSupply.findSubHeap size remaining system=some (result,after) ∧ Sound base after := by
  induction remaining generalizing system with
  | zero => exact ⟨_,system,rfl,h⟩
  | succ remaining ih =>
    rw [KmallocSupply.findSubHeap]
    cases hf : firstSubHeap (canAllocate size) system.heap.subHeaps with
    | some found => exact ⟨_,system,rfl,h⟩
    | none =>
      obtain ⟨result,grown,hg,hgrown,-⟩ := h.grow
      rw [hg]
      rcases result with error|_
      · exact ⟨_,grown,rfl,hgrown⟩
      · exact ih hgrown

/-- Without addresses or frames no attempt gives a sub-heap. -/
theorem Sound.findSubHeap_starved (h : Sound base system) (hz : size≠0)
    (hs : Starved system.manager)
    (hnone : firstSubHeap (canAllocate size) system.heap.subHeaps=none) (remaining : ℕ) :
    ∃ error after,
      KmallocSupply.findSubHeap size remaining system=some (.error error,after) := by
  induction remaining generalizing system with
  | zero => exact ⟨_,system,rfl⟩
  | succ remaining ih =>
    rw [KmallocSupply.findSubHeap,hnone]
    obtain ⟨result,grown,hg,hgrown,⟨-,-,error,rfl⟩|⟨-,rfl,descriptor,hl,hcases⟩⟩ := h.grow
    · rw [hg]
      exact ⟨error,grown,rfl⟩
    · obtain ⟨-,hzero,hstarved⟩ := hcases.resolve_left
        (fun hb => hs.not_rangeBacked (by decide) hb.1)
      have hclaim : canAllocate size descriptor=false := by
        refine decide_eq_false ?_
        omega
      rw [hg]
      refine ih hgrown hstarved ?_
      rw [hl,firstSubHeap,hclaim,hnone]
      rfl

/-- The heap's own objects and bytes may change as long as the storage stays
supplied. -/
theorem Sound.withHeap (h : Sound base system) {heap : KmallocHeap.Heap}
    (hs : Supplied base {system with heap := heap}) :
    Sound base {system with heap := heap} := ⟨hs,h.managed,h.fitting,h.page⟩

/-- Every action keeps a heap sound. -/
theorem sound_step (state : State) (action : Action) (next : State)
    (h : Sound base state.system) (hs : step state action=some next) :
    Sound base next.system := by
  cases action with
  | allocate size =>
    obtain ⟨⟨answer,after⟩,ha,he⟩ := Option.map_eq_some_iff.mp hs
    have hsound : Sound base after := by
      have hafter := (KmallocDispatch.allocate_supplied h.supplied ha).1
      rw [KmallocSupply.allocate] at ha
      by_cases hz : size=0
      · rw [if_pos hz] at ha
        cases ha
        exact h
      rw [if_neg hz] at ha
      obtain ⟨result,found,hf,hfound⟩ := @Sound.findSubHeap base size state.system h attempts
      rw [hf] at ha
      rcases result with error|⟨front,descriptor,back⟩
      · cases ha
        exact hfound
      · obtain ⟨result,-,hr⟩ := Option.map_eq_some_iff.mp ha
        cases hr
        exact hfound.withHeap hafter
    cases answer with
    | error error =>
      cases he
      exact hsound
    | ok pointer =>
      cases he
      exact hsound
  | free address =>
    obtain ⟨⟨answer,after⟩,ha,he⟩ := Option.map_eq_some_iff.mp hs
    have hafter := (KmallocDispatch.free_supplied h.supplied ha).1
    obtain ⟨result,-,hr⟩ := Option.map_eq_some_iff.mp ha
    cases hr
    cases he
    exact h.withHeap hafter
  | store address value =>
    cases hs
    exact h.withHeap (h.supplied.congr rfl rfl)
  | kernelPage =>
    cases hs
    obtain ⟨pages,hpages,hspace⟩ := allocateKernelHeapPage_space h.supplied.next_lt.1
    exact ⟨h.supplied.lose hpages rfl h.supplied.capacity hspace,h.managed.page,h.fitting,h.page⟩

/-- Every reachable heap is sound. -/
theorem Reachable.sound (h : Reachable system) : ∃ base,Sound base system := by
  obtain ⟨base,pages,memory,slabPage,slabMemory,manager,result,start,actions,returned,hlow,hbase,
    haligned,hpages,hspace,hmanaged,hfitting,hinit,hrun⟩ := h
  have hempty : Sound base ⟨⟨memory,[]⟩,
      (SlabAllocator.initialise slabMemory slabPage sizeofKmallocSubHeap).1,
      (SlabAllocator.initialise slabMemory slabPage sizeofKmallocSubHeap).2,manager⟩ :=
    ⟨KmallocDispatch.supplied_empty hlow hbase haligned hpages hspace,hmanaged,hfitting,_,_,
      SlabAllocator.initialise_spec slabMemory hfitting⟩
  obtain ⟨result',start',hg,hstart,-⟩ := hempty.grow
  have he : (result,start)=(result',start') := Option.some.inj (hinit.symm.trans hg)
  cases he
  exact ⟨base,@run_keeps _ _ step (fun state => Sound base state.system) sound_step _ _ _ hstart
    hrun⟩

/-- A sub-heap that has no block for a request stays as it is. -/
theorem allocateLoop_error {heap after : SubHeap} {request fuel cursor : ℕ} {error : Error}
    (h : KmallocSubHeap.allocateLoop heap request fuel cursor=some (.error error,after)) :
    after=heap := by
  induction fuel generalizing cursor with
  | zero => cases h
  | succ fuel ih =>
    rw [KmallocSubHeap.allocateLoop] at h
    split at h
    · cases h
      rfl
    split at h
    · cases h
      rfl
    split at h
    · cases h
    · exact ih h

/-- A sub-heap put back unchanged changes nothing. -/
theorem replaced_same {α : Type} {answer : α} {front back : List Descriptor}
    {descriptor : Descriptor} (hl : system.heap.subHeaps=front++descriptor::back) :
    (replaced system front back (answer,descriptor.over system.heap.memory)).2=system := by
  obtain ⟨⟨memory,subHeaps⟩,slab,slabMemory,manager⟩ := system
  dsimp only at hl
  rw [hl]
  rfl

/-- Nothing has changed when nothing has happened. -/
theorem Unchanged.refl (system : System) : Unchanged system system :=
  ⟨rfl,rfl,⟨rfl,rfl⟩,Unaffected.refl _⟩

/-- A sub-heap that claims the bytes and has no block for them fails without a
trace. -/
theorem failsUnchanged_of_claimed (hz : size≠0)
    (h : ∃ descriptor∈system.heap.subHeaps,canAllocate size descriptor=true) :
    FailsUnchanged system size := by
  obtain ⟨descriptor,hm,hd⟩ := h
  rcases hf : firstSubHeap (canAllocate size) system.heap.subHeaps with _|⟨front,chosen,back⟩
  · rw [KmallocHeap.firstSubHeap_eq_none hf descriptor hm] at hd
    cases hd
  · intro error after ha
    rw [allocate_claimed hz hf] at ha
    obtain ⟨⟨answer,heap⟩,hr,he⟩ := Option.map_eq_some_iff.mp ha
    have hanswer : answer=.error error := congrArg Prod.fst he
    rw [hanswer] at hr
    have hheap : heap=chosen.over system.heap.memory := allocateLoop_error hr
    have hafter : after=system := by
      rw [hheap] at he
      rw [← replaced_same (KmallocHeap.firstSubHeap_eq_some hf).1]
      exact (congrArg Prod.snd he).symm
    rw [hafter]
    exact Unchanged.refl system

/-- Without an object of the slab a request that no sub-heap claims fails
without a trace. -/
theorem failsUnchanged_of_noSlot (h : Sound base system) (hz : size≠0)
    (hnone : firstSubHeap (canAllocate size) system.heap.subHeaps=none)
    (hfree : freeObjects system.slabMemory system.slab.head=0) : FailsUnchanged system size := by
  obtain ⟨result,grown,hg,-,⟨-,rfl,failure,rfl⟩|⟨hno,-⟩⟩ := h.grow
  · intro error after ha
    rw [KmallocSupply.allocate,if_neg hz,attempts,KmallocSupply.findSubHeap,hnone,hg] at ha
    cases ha
    exact Unchanged.refl _
  · exact absurd hfree hno

/-- The attempt after the heap has grown. -/
theorem findSubHeap_grown {grown : System} {remaining : ℕ}
    (hnone : firstSubHeap (canAllocate size) system.heap.subHeaps=none)
    (hg : KmallocSupply.grow system=some (.ok (),grown)) :
    KmallocSupply.findSubHeap size (remaining+1) system=
      KmallocSupply.findSubHeap size remaining grown := by
  rw [KmallocSupply.findSubHeap,hnone,hg]

/-- A fresh sub-heap with room for the request serves it. -/
theorem served_of_fresh {grown : System} {descriptor : Descriptor} {rest : List Descriptor}
    (hz : size≠0) (hs : size≤largestRequest)
    (hnone : firstSubHeap (canAllocate size) system.heap.subHeaps=none)
    (hg : KmallocSupply.grow system=some (.ok (),grown))
    (hl : grown.heap.subHeaps=descriptor::rest) (hfresh : Fresh grown.heap.memory descriptor) :
    ∃ pointer after,KmallocSupply.allocate system size=some (.ok pointer,after) := by
  obtain ⟨pointer,after,ha⟩ := fresh_serves hl hfresh hz hs
  have hfirst : firstSubHeap (canAllocate size) grown.heap.subHeaps=some ([],descriptor,rest) := by
    rw [hl]
    exact hfresh.first (hs.trans (Nat.sub_le _ _)) rest
  rw [allocate_claimed hz hfirst] at ha
  refine ⟨pointer,after,?_⟩
  rw [KmallocSupply.allocate,if_neg hz,attempts,findSubHeap_grown hnone hg,
    KmallocSupply.findSubHeap,hfirst]
  exact ha

/-- Otherwise the request fails after the list has become longer. -/
theorem fails_longer (h : Sound base system) (hz : size≠0)
    (hnone : firstSubHeap (canAllocate size) system.heap.subHeaps=none)
    (hfree : freeObjects system.slabMemory system.slab.head≠0)
    (hlost : ¬(size≤largestRequest ∧ RangeBacked system.manager subHeapPages)) :
    ∃ error after,KmallocSupply.allocate system size=some (.error error,after) ∧
      system.heap.subHeaps.length<after.heap.subHeaps.length := by
  obtain ⟨result,grown,hg,hgrown,⟨hno,-⟩|⟨-,rfl,descriptor,hl,hcases⟩⟩ := h.grow
  · exact absurd hno hfree
  have hfind : KmallocSupply.findSubHeap size attempts system=
      KmallocSupply.findSubHeap size 2 grown := findSubHeap_grown hnone hg
  obtain ⟨result,found,hf,-⟩ := @Sound.findSubHeap base size grown hgrown 2
  have hlonger : system.heap.subHeaps.length<found.heap.subHeaps.length := by
    obtain ⟨-,⟨more,hmore⟩,-⟩ := hgrown.supplied.findSubHeap (Nat.one_le_iff_ne_zero.mpr hz) hf
    rw [hmore,hl,List.length_append,List.length_cons]
    omega
  rw [← hfind] at hf
  rcases result with error|⟨front,chosen,back⟩
  · refine ⟨error,found,?_,hlonger⟩
    rw [KmallocSupply.allocate,if_neg hz,hf]
  · obtain ⟨-,-,hin⟩ := h.supplied.findSubHeap (Nat.one_le_iff_ne_zero.mpr hz) hf
    obtain ⟨hlist,hchosen⟩ := hin front chosen back rfl
    have hfresh : Fresh found.heap.memory chosen := by
      rcases hchosen with ⟨-,hsome⟩|hfresh
      · rw [hnone] at hsome
        cases hsome
      · exact hfresh
    have hlarge : ¬size≤largestRequest := by
      intro hs
      obtain ⟨-,hzero,hstarved⟩ := hcases.resolve_left (fun hb => hlost ⟨hs,hb.1⟩)
      have hrest : firstSubHeap (canAllocate size) grown.heap.subHeaps=none := by
        rw [hl,firstSubHeap,if_neg (by rw [canAllocate,hzero]; simpa using hz),hnone]
        rfl
      obtain ⟨error,after,he⟩ := hgrown.findSubHeap_starved hz hstarved hrest 2
      rw [← hfind,hf] at he
      cases he
    obtain ⟨before,address,hpos,hstop,he⟩ := hfresh
    obtain ⟨-,hr⟩ := (@fresh_allocate before address size hpos hstop.le).resolve_left
      (fun hs => hlarge hs.1)
    refine ⟨.fromCode 1,found,?_,hlonger⟩
    rw [KmallocSupply.allocate,if_neg hz,hf]
    dsimp only
    rw [he,hr,← he,Option.map_some]
    exact congrArg some (Prod.ext rfl (replaced_same hlist))

end Steps

/-- The first sub-heap of a heap with room is fresh, and the slab has objects
left. -/
theorem roomy_reachable : ∃ system descriptor,Reachable system ∧
    system.heap.subHeaps=[descriptor] ∧ Fresh system.heap.memory descriptor ∧
      freeObjects system.slabMemory system.slab.head≠0 := by
  obtain ⟨system,hinit,hheap,-,hleft⟩ := roomy_initialised
  have hroom : 1≤(heapAddressSpace 0xffffffff80500000).freePages := by decide +kernel
  have hreachable : Reachable system :=
    ⟨0xffffffff80500000,1,_,0xffffffff80500000,_,roomyManager,_,system,[],[],by decide,by decide,
      by decide,hroom,rfl,⟨⟨_,roomyManager_tabled⟩,by decide⟩,roomy_fitting,hinit,rfl⟩
  refine ⟨system,_,hreachable,congrArg KmallocHeap.Heap.subHeaps hheap,?_,hleft.freeObjects_ne⟩
  rw [hheap]
  exact fresh_initialise (by decide) (by decide)

/-- A failed request leaves the heap as it was exactly when it is for no
bytes, some sub-heap claims to have them, the slab is used up, or a fresh
sub-heap has room for them and could be supplied. -/
theorem failsUnchanged_iff {system : System} (h : Reachable system) (size : ℕ) :
    FailsUnchanged system size ↔ NothingLost system size := by
  obtain ⟨base,hsound⟩ := h.sound
  by_cases hz : size=0
  · refine iff_of_true ?_ (Or.inl hz)
    intro error after ha
    rw [KmallocSupply.allocate,if_pos hz] at ha
    cases ha
    exact Unchanged.refl system
  by_cases hclaimed : ∃ descriptor∈system.heap.subHeaps,canAllocate size descriptor=true
  · exact iff_of_true (failsUnchanged_of_claimed hz hclaimed) (Or.inr (Or.inl hclaimed))
  have hnone : firstSubHeap (canAllocate size) system.heap.subHeaps=none := by
    refine KmallocHeap.firstSubHeap_none ?_
    intro descriptor hm
    exact Bool.eq_false_iff.mpr (fun hd => hclaimed ⟨descriptor,hm,hd⟩)
  by_cases hfree : freeObjects system.slabMemory system.slab.head=0
  · exact iff_of_true (failsUnchanged_of_noSlot hsound hz hnone hfree)
      (Or.inr (Or.inr (Or.inl hfree)))
  by_cases hserved : size≤largestRequest ∧ RangeBacked system.manager subHeapPages
  · refine iff_of_true ?_ (Or.inr (Or.inr (Or.inr hserved)))
    intro error after ha
    obtain ⟨result,grown,hg,-,⟨hno,-⟩|⟨-,rfl,descriptor,hl,hcases⟩⟩ := hsound.grow
    · exact absurd hno hfree
    have hfresh := (hcases.resolve_right (fun hno => hno.1 hserved.2)).2
    obtain ⟨pointer,after',hok⟩ := served_of_fresh hz hserved.1 hnone hg hl hfresh
    rw [hok] at ha
    cases ha
  · refine iff_of_false ?_ ?_
    · intro hunchanged
      obtain ⟨error,after,ha,hlonger⟩ := fails_longer hsound hz hnone hfree hserved
      rw [(hunchanged error after ha).subHeaps] at hlonger
      exact lt_irrefl _ hlonger
    · rintro (hno|hno|hno|hno)
      · exact hz hno
      · exact hclaimed hno
      · exact hfree hno
      · exact hserved hno

/-- A request the first sub-heap has room for. -/
theorem failsUnchanged_iff_small : ∃ system,Reachable system ∧ NothingLost system 64 ∧
    FailsUnchanged system 64 := by
  obtain ⟨system,descriptor,hreachable,hl,hfresh,-⟩ := roomy_reachable
  have hclaim : canAllocate 64 descriptor=true := hfresh.canAllocate_iff.mpr (by decide)
  have hlost : NothingLost system 64 :=
    Or.inr (Or.inl ⟨descriptor,by rw [hl]; exact List.mem_singleton_self _,hclaim⟩)
  exact ⟨system,hreachable,hlost,(failsUnchanged_iff hreachable 64).mpr hlost⟩

/-- A request of one byte more than a sub-heap has fails in a heap with a
single sub-heap, and there are more sub-heaps afterwards. -/
theorem failed_allocation_grows : ¬∀ system,Reachable system → ∀ size,
    FailsUnchanged system size := by
  intro hall
  obtain ⟨system,descriptor,hreachable,hl,hfresh,hfree⟩ := roomy_reachable
  obtain ⟨base,hsound⟩ := hreachable.sound
  have hclaim : canAllocate 0x1000001 descriptor=false :=
    Bool.eq_false_iff.mpr (fun hd => absurd (hfresh.canAllocate_iff.mp hd) (by decide))
  have hnone : firstSubHeap (canAllocate 0x1000001) system.heap.subHeaps=none := by
    rw [hl]
    exact KmallocHeap.firstSubHeap_none (List.forall_mem_singleton.mpr hclaim)
  obtain ⟨error,after,ha,hlonger⟩ := fails_longer hsound (by decide) hnone hfree
    (fun hserved => absurd hserved.1 (by decide))
  have hsame := (hall system hreachable 0x1000001 error after ha).subHeaps
  rw [hsame] at hlonger
  exact lt_irrefl _ hlonger

end WorkbenchOS.KmallocGrowth
