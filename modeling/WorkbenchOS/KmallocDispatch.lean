import WorkbenchOS.KmallocSupply

/-!
# Which sub-heap a pointer belongs to

`KmallocHeap::free` looks for the sub-heap whose storage contains the
pointer. The storage ranges on the list are disjoint, sub-heaps stay on the
list and keep their storage, so a pointer is freed by the sub-heap that
returned it. A sub-heap whose storage could not be allocated contains no
address.
-/

namespace WorkbenchOS.KmallocDispatch

open ByteMemory LibStd TransitionRuns MemoryManagement HeapAddresses KmallocSupply
open KmallocHeap (Descriptor canAllocate descriptorOf firstSubHeap firstSubHeap_append
  firstSubHeap_none)
open KmallocSubHeap (SubHeap subHeapSize)

/-- `contains_allocation` of a sub-heap of the system. -/
def Contains (system : System) (descriptor : Descriptor) (address : ℕ) : Prop :=
  KmallocSubHeap.containsAllocation (descriptor.over system.heap.memory) address=true

/-- The address is in the range with this start and capacity, as the source
compares it. -/
def Holds (extent : ℕ×ℕ) (address : ℕ) : Prop :=
  extent.1≤address ∧ address<u64 (extent.1+extent.2)

/-- The address is contained in this sub-heap of the list and in no other, and
`free` passes it to this sub-heap. -/
structure OwnedBy (system : System) (address : ℕ) (front : List Descriptor)
    (descriptor : Descriptor) (back : List Descriptor) : Prop where
  /-- Its place on the list. -/
  list_eq : system.heap.subHeaps=front++descriptor::back
  /-- It contains the address. -/
  contains : Contains system descriptor address
  /-- No other one does. -/
  others : ∀ other∈front++back,¬Contains system other address
  /-- `KmallocHeap::free` is `KmallocSubHeap::free` of this sub-heap. -/
  freed : free system address=
    (KmallocSubHeap.free (descriptor.over system.heap.memory) address).map
      (replaced system front back)

/-- Frees go to the right sub-heap. -/
structure Dispatched (state : State) : Prop where
  /-- The storage ranges on the list are pairwise disjoint. -/
  apart : state.system.heap.subHeaps.Pairwise (fun first second => ∀ address,
    ¬(Contains state.system first address ∧ Contains state.system second address))
  /-- A sub-heap that contains an address is the only one, and frees it. -/
  owned : ∀ address,∀ descriptor∈state.system.heap.subHeaps,
    Contains state.system descriptor address →
      ∃ front back,OwnedBy state.system address front descriptor back
  /-- Every pointer that was returned belongs to the sub-heap that returned it. -/
  returned : ∀ grant∈state.returned,∃ front descriptor back,
    grant.server=some descriptor.storage ∧
      OwnedBy state.system grant.pointer front descriptor back
  /-- An address in none of them is refused, and nothing changes. -/
  foreign : ∀ address,
    (∀ descriptor∈state.system.heap.subHeaps,¬Contains state.system descriptor address) →
      free state.system address=some (.error (.fromCode 1),state.system)

/-- A pointer returned by the sub-heap that claims the bytes lies in its own
storage. -/
def ReturnsInside (state : State) : Action→Prop
  | .allocate size => ∀ front descriptor back pointer after,
      firstSubHeap (canAllocate size) state.system.heap.subHeaps=some (front,descriptor,back) →
      KmallocSubHeap.allocate (descriptor.over state.system.heap.memory) size=
        some (.ok pointer,after) → Contains state.system descriptor pointer
  | _ => True

/-- `contains_allocation` compares with the two ends of the extent. -/
theorem contains_iff {system : System} {descriptor : Descriptor} {address : ℕ} :
    Contains system descriptor address ↔
      Holds (descriptor.storage,descriptor.capacity) address := decide_eq_true_iff

section System

variable {base : ℕ} {system : System}

/-- An extent that holds an address has its storage and ends where it should. -/
theorem holds_bounds (h : Supplied base system) {extent : ℕ×ℕ} {address : ℕ}
    (hm : extent∈extents system.heap.subHeaps) (ha : Holds extent address) :
    extent.2≠0 ∧ extent.1≤address ∧ address<extent.1+subHeapSize := by
  have hwrap := Nat.mod_le extent.1 (2^64)
  obtain ⟨hlow,hhigh⟩ := ha
  by_cases hc : extent.2=0
  · rw [hc,Nat.add_zero] at hhigh
    unfold u64 at hhigh
    omega
  · have hstop := h.stop_lt hm hc
    rw [(h.capacity extent hm).resolve_left hc,u64_of_lt hstop.2] at hhigh
    exact ⟨hc,hlow,hhigh⟩

/-- No address is held twice. -/
theorem pairwise_holds (h : Supplied base system) :
    (extents system.heap.subHeaps).Pairwise
      (fun first second => ∀ address,¬(Holds first address ∧ Holds second address)) := by
  have hd := h.orderly.separate.disjoint
  rw [ranges,List.pairwise_map,List.pairwise_filter] at hd
  refine hd.imp_of_mem ?_
  intro first second hf hs hapart address hboth
  obtain ⟨hcf,hlf,hhf⟩ := holds_bounds h hf hboth.1
  obtain ⟨hcs,hls,hhs⟩ := holds_bounds h hs hboth.2
  have ha := hapart (decide_eq_true hcf) (decide_eq_true hcs)
  rw [show subHeapPages*Page=subHeapSize by decide] at ha
  unfold Apart at ha
  omega

/-- The storage ranges of the list are disjoint. -/
theorem pairwise_contains (h : Supplied base system) :
    system.heap.subHeaps.Pairwise (fun first second => ∀ address,
      ¬(Contains system first address ∧ Contains system second address)) := by
  have hp := pairwise_holds h
  rw [extents,List.pairwise_map] at hp
  refine hp.imp ?_
  intro first second hno address hboth
  exact hno address ⟨contains_iff.mp hboth.1,contains_iff.mp hboth.2⟩

/-- `free` passes an address to the only sub-heap that contains it. -/
theorem free_contained {front back : List Descriptor} {descriptor : Descriptor} {address : ℕ}
    (hl : system.heap.subHeaps=front++descriptor::back)
    (hc : Contains system descriptor address) (hf : ∀ other∈front,¬Contains system other address) :
    free system address=(KmallocSubHeap.free (descriptor.over system.heap.memory) address).map
      (replaced system front back) := by
  have hfirst := @firstSubHeap_append (fun descriptor =>
    KmallocSubHeap.containsAllocation (descriptor.over system.heap.memory) address) front back
      descriptor (fun other hm => Bool.eq_false_iff.mpr (hf other hm)) hc
  rw [← hl] at hfirst
  rw [free,KmallocHeap.free,hfirst,Option.map_map]
  rfl

/-- `free` refuses an address that no sub-heap contains. -/
theorem free_foreign {address : ℕ}
    (h : ∀ descriptor∈system.heap.subHeaps,¬Contains system descriptor address) :
    free system address=some (.error (.fromCode 1),system) := by
  have hnone := @firstSubHeap_none (fun descriptor =>
    KmallocSubHeap.containsAllocation (descriptor.over system.heap.memory) address)
      system.heap.subHeaps (fun other hm => Bool.eq_false_iff.mpr (h other hm))
  rw [free,KmallocHeap.free,hnone]
  rfl

/-- A sub-heap that contains an address owns it. -/
theorem ownedBy_of_contains (h : Supplied base system) {descriptor : Descriptor} {address : ℕ}
    (hm : descriptor∈system.heap.subHeaps) (hc : Contains system descriptor address) :
    ∃ front back,OwnedBy system address front descriptor back := by
  obtain ⟨front,back,hl⟩ := List.append_of_mem hm
  have hp := pairwise_contains h
  rw [hl] at hp
  obtain ⟨-,hback,hcross⟩ := List.pairwise_append.mp hp
  have hfront : ∀ other∈front,¬Contains system other address :=
    fun other ho hin => hcross other ho descriptor List.mem_cons_self address ⟨hin,hc⟩
  refine ⟨front,back,hl,hc,?_,free_contained hl hc hfront⟩
  intro other ho
  rcases List.mem_append.mp ho with hf|hb
  · exact hfront other hf
  · exact fun hin => (List.pairwise_cons.mp hback).1 other hb address ⟨hc,hin⟩

/-- All sub-heaps of a supplied system and the pointers they returned are
dispatched. -/
theorem dispatched_of_supplied {state : State} (h : Supplied base state.system)
    (hr : ∀ grant∈state.returned,∃ descriptor∈state.system.heap.subHeaps,
      grant.server=some descriptor.storage ∧ Contains state.system descriptor grant.pointer) :
    Dispatched state := by
  refine ⟨pairwise_contains h,fun _ _ hm hc => ownedBy_of_contains h hm hc,?_,
    fun _ hno => free_foreign hno⟩
  intro grant hm
  obtain ⟨descriptor,hd,hs,hc⟩ := hr grant hm
  obtain ⟨front,back,ho⟩ := ownedBy_of_contains h hd hc
  exact ⟨front,descriptor,back,hs,ho⟩

/-- What a sub-heap answers leaves the extents as they are. -/
theorem extents_replaced {α : Type} {front back : List Descriptor} {descriptor : Descriptor}
    {answer : α×SubHeap} (hl : system.heap.subHeaps=front++descriptor::back)
    (hs : answer.2.storage=descriptor.storage) (hc : answer.2.capacity=descriptor.capacity) :
    extents (replaced system front back answer).2.heap.subHeaps=extents system.heap.subHeaps := by
  rw [hl]
  simp only [replaced,extents,List.map_append,List.map_cons,descriptorOf,hs,hc]

/-- A fresh sub-heap returns a pointer into its own storage. -/
theorem fresh_returns_inside {descriptor : Descriptor} {size pointer : ℕ} {after : SubHeap}
    (h : Fresh system.heap.memory descriptor)
    (ha : KmallocSubHeap.allocate (descriptor.over system.heap.memory) size=
      some (.ok pointer,after)) : Holds (descriptor.storage,descriptor.capacity) pointer := by
  obtain ⟨before,address,hpos,hstop,he⟩ := h
  have hstorage : descriptor.storage=address := congrArg SubHeap.storage he
  have hcapacity : descriptor.capacity=subHeapSize := congrArg SubHeap.capacity he
  rw [he] at ha
  rw [hstorage,hcapacity]
  rcases @fresh_allocate before address size hpos hstop.le with ⟨-,fresh,hf⟩|⟨-,hf⟩
  · rw [hf] at ha
    cases ha
    unfold Holds u64
    unfold KmallocSubHeap.sizeofAllocatedBlock subHeapSize at *
    dsimp only
    omega
  · rw [hf] at ha
    cases ha

/-- An allocation keeps the storage of all sub-heaps, puts new ones in front
of them and returns a pointer into the storage of the sub-heap it asked. -/
theorem allocate_supplied (h : Supplied base system) {size : ℕ} {after : System}
    {answer : Except Error ℕ} (ha : allocate system size=some (answer,after)) :
    Supplied base after ∧
      (∃ more,extents after.heap.subHeaps=more++extents system.heap.subHeaps) ∧
      ∀ pointer returned,answer=.ok pointer → ReturnsInside ⟨system,returned⟩ (.allocate size) →
        ∃ extent∈extents after.heap.subHeaps,server system size=some extent.1 ∧
          Holds extent pointer := by
  rw [KmallocSupply.allocate] at ha
  by_cases hz : size=0
  · rw [if_pos hz] at ha
    cases ha
    exact ⟨h,⟨[],rfl⟩,fun _ _ he => by cases he⟩
  rw [if_neg hz] at ha
  split at ha
  · cases ha
  · rename_i error found hf
    cases ha
    obtain ⟨hafter,⟨more,hmore⟩,-⟩ := h.findSubHeap (Nat.one_le_iff_ne_zero.mpr hz) hf
    refine ⟨hafter,⟨extents more,?_⟩,fun _ _ he => by cases he⟩
    rw [hmore,extents,List.map_append]
    rfl
  · rename_i front descriptor back found hf
    obtain ⟨hfound,⟨more,hmore⟩,hin⟩ := h.findSubHeap (Nat.one_le_iff_ne_zero.mpr hz) hf
    obtain ⟨hl,hcases⟩ := hin front descriptor back rfl
    obtain ⟨result,hr,he⟩ := Option.map_eq_some_iff.mp ha
    obtain ⟨hs,hc,-⟩ := KmallocHeap.allocateLoop_fields hr
    have hsame := extents_replaced hl hs hc
    rw [he] at hsame
    have hmem : (descriptor.storage,descriptor.capacity)∈extents after.heap.subHeaps := by
      rw [hsame,hl]
      simp [extents]
    have hspace : after.manager.heapSpace=found.manager.heapSpace := by
      have hm := congrArg (fun answer => answer.2.manager.heapSpace) he
      exact hm.symm
    refine ⟨hfound.congr hsame hspace,⟨extents more,?_⟩,?_⟩
    · rw [hsame,hmore,extents,List.map_append]
      rfl
    · intro pointer returned hok hinside
      have hresult : result=(.ok pointer,result.2) := by
        have hfirst : result.1=answer := congrArg Prod.fst he
        rw [← hok,← hfirst]
      rw [hresult] at hr
      refine ⟨_,hmem,by rw [server,hf],?_⟩
      rcases hcases with ⟨rfl,hfirst⟩|hfresh
      · exact contains_iff.mp (hinside front descriptor back pointer result.2 hfirst hr)
      · exact fresh_returns_inside hfresh hr

/-- A free keeps the storage of all sub-heaps. -/
theorem free_supplied (h : Supplied base system) {address : ℕ} {after : System}
    {answer : Except Error Unit} (ha : free system address=some (answer,after)) :
    Supplied base after ∧ extents after.heap.subHeaps=extents system.heap.subHeaps := by
  by_cases hin : ∃ descriptor∈system.heap.subHeaps,Contains system descriptor address
  · obtain ⟨descriptor,hm,hc⟩ := hin
    obtain ⟨front,back,ho⟩ := ownedBy_of_contains h hm hc
    rw [ho.freed] at ha
    obtain ⟨result,hr,he⟩ := Option.map_eq_some_iff.mp ha
    obtain ⟨hs,hcapacity,-⟩ := KmallocHeap.free_fields hr
    have hsame := extents_replaced ho.list_eq hs hcapacity
    rw [he] at hsame
    have hspace := congrArg (fun answer => answer.2.manager.heapSpace) he
    exact ⟨h.congr hsame hspace.symm,hsame⟩
  · rw [free_foreign (fun descriptor hm hc => hin ⟨descriptor,hm,hc⟩)] at ha
    cases ha
    exact ⟨h,rfl⟩

end System

/-- What a run keeps: the storage of the sub-heaps is theirs, and each pointer
returned is in the storage of a sub-heap that is still on the list. -/
structure Tracked (base : ℕ) (state : State) : Prop where
  /-- The storage. -/
  supplied : Supplied base state.system
  /-- The pointers. -/
  returned : ∀ grant∈state.returned,∃ extent∈extents state.system.heap.subHeaps,
    grant.server=some extent.1 ∧ Holds extent grant.pointer

/-- A tracked state is dispatched. -/
theorem Tracked.dispatched {base : ℕ} {state : State} (h : Tracked base state) :
    Dispatched state := by
  refine dispatched_of_supplied h.supplied ?_
  intro grant hm
  obtain ⟨extent,he,hs,hh⟩ := h.returned grant hm
  obtain ⟨descriptor,hd,rfl⟩ := List.mem_map.mp he
  exact ⟨descriptor,hd,hs,contains_iff.mpr hh⟩

/-- Pointers stay where they are when the list only grows at its head. -/
theorem Tracked.grown {base : ℕ} {state : State} (h : Tracked base state) {after : System}
    (hs : Supplied base after)
    (hm : ∃ more,extents after.heap.subHeaps=more++extents state.system.heap.subHeaps) :
    Tracked base {state with system := after} := by
  obtain ⟨more,hmore⟩ := hm
  refine ⟨hs,fun grant hg => ?_⟩
  obtain ⟨extent,he,hx⟩ := h.returned grant hg
  exact ⟨extent,by rw [hmore]; exact List.mem_append_right _ he,hx⟩

/-- Every action keeps a state tracked. -/
theorem tracked_step {base : ℕ} (state : State) (action : Action) (next : State)
    (h : Tracked base state) (hc : ReturnsInside state action)
    (hs : step state action=some next) : Tracked base next := by
  cases action with
  | allocate size =>
    obtain ⟨⟨answer,after⟩,ha,he⟩ := Option.map_eq_some_iff.mp hs
    obtain ⟨hafter,hmore,hpointer⟩ := allocate_supplied h.supplied ha
    have hgrown := h.grown hafter hmore
    cases answer with
    | error error =>
      cases he
      exact hgrown
    | ok pointer =>
      cases he
      exact ⟨hafter,List.forall_mem_cons.mpr
        ⟨hpointer pointer state.returned rfl hc,hgrown.returned⟩⟩
  | free address =>
    obtain ⟨⟨answer,after⟩,ha,he⟩ := Option.map_eq_some_iff.mp hs
    obtain ⟨hafter,hsame⟩ := free_supplied h.supplied ha
    cases he
    exact h.grown hafter ⟨[],hsame⟩
  | store address value =>
    cases hs
    exact h.grown (h.supplied.congr rfl rfl) ⟨[],rfl⟩
  | kernelPage =>
    cases hs
    obtain ⟨pages,hpages,hspace⟩ := allocateKernelHeapPage_space h.supplied.next_lt.1
    exact h.grown (h.supplied.lose hpages rfl h.supplied.capacity hspace) ⟨[],rfl⟩

/-- Before the first sub-heap the heap address space is the one
`MemoryManager::init` makes, of which other parts of the kernel may have taken
pages. -/
theorem supplied_empty {base pages : ℕ} (hlow : 0xffffffff80000000≤base)
    (hbase : base<2^64) (haligned : base%Page=0) {memory slabMemory : Memory}
    {slab : SlabAllocator.Slab} {manager : MemoryManager}
    (hpages : pages≤(heapAddressSpace base).freePages)
    (hspace : manager.heapSpace=taken (heapAddressSpace base) pages) :
    Supplied base ⟨⟨memory,[]⟩,slab,slabMemory,manager⟩ := by
  have hcounted : (2^64-1-base)/Page<FrameBitmap.intIterations := by
    rw [Page,FrameBitmap.intIterations]
    omega
  refine ⟨by omega,hbase,hcounted,?_,by simp [extents]⟩
  rw [hspace]
  exact (orderly_heapAddressSpace hbase haligned).lose (by omega) hpages

/-- `KmallocHeap::initialise` takes the storage of the first sub-heap from
there. -/
theorem supplied_initialise {base pages : ℕ} (hlow : 0xffffffff80000000≤base)
    (hbase : base<2^64) (haligned : base%Page=0) {memory slabMemory : Memory}
    {slab : SlabAllocator.Slab} {manager : MemoryManager} {system : System}
    {result : Except Error Unit} (hpages : pages≤(heapAddressSpace base).freePages)
    (hspace : manager.heapSpace=taken (heapAddressSpace base) pages)
    (hinit : initialise memory slab slabMemory manager=some (result,system)) :
    Supplied base system :=
  ((supplied_empty hlow hbase haligned hpages hspace).grow hinit).1

section Sample

variable {state : State} {size pointer : ℕ} {front back : List Descriptor}
  {descriptor : Descriptor} {heap : KmallocHeap.Heap}

/-- A slab that is used up. -/
def nothing (_ : ℕ) : KmallocHeap.Grant := .noSlot

/-- When a sub-heap claims the bytes, the answer is its own. -/
theorem asked (hz : size≠0)
    (hf : firstSubHeap (canAllocate size) state.system.heap.subHeaps=some (front,descriptor,back))
    (ha : KmallocHeap.allocate state.system.heap size nothing=some (.ok pointer,heap)) : ∃ after,
    KmallocSubHeap.allocate (descriptor.over state.system.heap.memory) size=
        some (.ok pointer,after) ∧ heap=⟨after.memory,front++descriptorOf after::back⟩ := by
  rw [KmallocHeap.allocate,if_neg hz,KmallocHeap.attempts,KmallocHeap.allocateAttempt,hf] at ha
  obtain ⟨⟨answer,after⟩,hr,he⟩ := Option.map_eq_some_iff.mp ha
  obtain ⟨hanswer,hheap⟩ := Prod.mk.inj he
  dsimp only at hanswer
  rw [hanswer] at hr
  exact ⟨after,hr,hheap.symm⟩

/-- The heap needs no supplies then. -/
theorem step_claimed (hz : size≠0)
    (hf : firstSubHeap (canAllocate size) state.system.heap.subHeaps=some (front,descriptor,back))
    (ha : KmallocHeap.allocate state.system.heap size nothing=some (.ok pointer,heap)) :
    step state (.allocate size)=some ⟨{state.system with heap := heap},
      ⟨pointer,some descriptor.storage⟩::state.returned⟩ := by
  have hfound : findSubHeap size KmallocHeap.attempts state.system=
      some (.ok (front,descriptor,back),state.system) := by
    rw [KmallocHeap.attempts,findSubHeap,hf]
  have hserver : server state.system size=some descriptor.storage := by rw [server,hfound]
  obtain ⟨after,hr,rfl⟩ := asked hz hf ha
  rw [step,allocate_claimed hz hf,hr,Option.map_some,Option.map_some]
  dsimp only [replaced]
  rw [hserver]

/-- The pointer is then the one to look at. -/
theorem returnsInside_claimed (hz : size≠0)
    (hf : firstSubHeap (canAllocate size) state.system.heap.subHeaps=some (front,descriptor,back))
    (ha : KmallocHeap.allocate state.system.heap size nothing=some (.ok pointer,heap))
    (hp : Holds (descriptor.storage,descriptor.capacity) pointer) :
    ReturnsInside state (.allocate size) := by
  intro front' descriptor' back' pointer' after hf' ha'
  rw [hf] at hf'
  cases hf'
  obtain ⟨answer,hr,-⟩ := asked hz hf ha
  rw [hr] at ha'
  cases ha'
  exact contains_iff.mpr hp

/-- A request that no sub-heap claims is answered by none of them. -/
theorem returnsInside_unclaimed
    (hf : firstSubHeap (canAllocate size) state.system.heap.subHeaps=none) :
    ReturnsInside state (.allocate size) := by
  intro front' descriptor' back' pointer' after hf'
  rw [hf] at hf'
  cases hf'

/-- When no sub-heap claims the bytes in the end, the attempts leave what they
have added, and no pointer. -/
theorem step_unclaimed (hz : size≠0) {error : Error} {grown : System}
    (hf : findSubHeap size KmallocHeap.attempts state.system=some (.error error,grown)) :
    step state (.allocate size)=some ⟨grown,state.returned⟩ := by
  rw [step,KmallocSupply.allocate,if_neg hz,hf]
  rfl

/-- A step in front of a run. -/
theorem run_cons {next last : State} {action : Action} {actions : List Action}
    (hc : ReturnsInside state action) (hs : step state action=some next)
    (hr : run step next actions=some last ∧ Each step ReturnsInside next actions) :
    run step state (action::actions)=some last ∧
      Each step ReturnsInside state (action::actions) := by
  refine ⟨?_,hc,fun other ho => ?_⟩
  · rw [run,hs,Option.bind_some]
    exact hr.1
  · rw [hs] at ho
    cases ho
    exact hr.2

/-- Such a request in front of a run. -/
theorem run_claimed {last : State} {actions : List Action} (hz : size≠0)
    (hf : firstSubHeap (canAllocate size) state.system.heap.subHeaps=some (front,descriptor,back))
    (ha : KmallocHeap.allocate state.system.heap size nothing=some (.ok pointer,heap))
    (hp : Holds (descriptor.storage,descriptor.capacity) pointer)
    (hr : run step ⟨{state.system with heap := heap},
        ⟨pointer,some descriptor.storage⟩::state.returned⟩ actions=some last ∧
      Each step ReturnsInside ⟨{state.system with heap := heap},
        ⟨pointer,some descriptor.storage⟩::state.returned⟩ actions) :
    run step state (.allocate size::actions)=some last ∧
      Each step ReturnsInside state (.allocate size::actions) :=
  run_cons (returnsInside_claimed hz hf ha hp) (step_claimed hz hf ha) hr

/-- An answer with the list of sub-heaps it leaves. -/
theorem answered {α : Type} {answer : α} {list : List Descriptor}
    {outcome : Option (α×KmallocHeap.Heap)}
    (h : outcome.map (fun after => (after.1,after.2.subHeaps))=some (answer,list)) :
    ∃ heap,outcome=some (answer,heap) ∧ heap.subHeaps=list := by
  obtain ⟨⟨_,heap⟩,ho,he⟩ := Option.map_eq_some_iff.mp h
  cases he
  exact ⟨heap,ho,rfl⟩

/-- A request of the first sub-heap, one that no sub-heap can serve and that
adds three, two of the newest, and the first pointer is freed. -/
def sampleActions : List Action :=
  [.allocate 64,.allocate 0x1000001,.allocate 64,.allocate 100,.free 0xffffffff80501010]

/-- The heap after the first request. -/
def sampleFirst : Option (Except Error ℕ×KmallocHeap.Heap) :=
  KmallocHeap.allocate (withSubHeap ⟨fun _ => 0,[]⟩ 0xffffffff80501000) 64 nothing

/-- After the third. -/
def sampleThird : Option (Except Error ℕ×KmallocHeap.Heap) :=
  sampleFirst.bind (fun before =>
    KmallocHeap.allocate (withSubHeaps 3 0xffffffff81501000 before.2) 64 nothing)

/-- After the fourth. -/
def sampleFourth : Option (Except Error ℕ×KmallocHeap.Heap) :=
  sampleThird.bind (fun before => KmallocHeap.allocate before.2 100 nothing)

/-- After the first pointer is freed. -/
def sampleFreed : Option (Except Error Unit×KmallocHeap.Heap) :=
  sampleFourth.bind (fun before => KmallocHeap.free before.2 0xffffffff80501010)

/-- A sub-heap with everything it had at first except the head of its list. -/
def sampleSubHeap (storage freeList : ℕ) : Descriptor :=
  ⟨storage,freeList,subHeapSize,subHeapSize⟩

/-- The three sub-heaps that were there before the newest. -/
def sampleOlder (freeList : ℕ) : List Descriptor :=
  [sampleSubHeap 0xffffffff82501000 0xffffffff82501000,
    sampleSubHeap 0xffffffff81501000 0xffffffff81501000,sampleSubHeap 0xffffffff80501000 freeList]

/-- The pointers of the run. -/
def sampleReturned : List Returned :=
  [⟨0xffffffff83501060,some 0xffffffff83501000⟩,⟨0xffffffff83501010,some 0xffffffff83501000⟩,
    ⟨0xffffffff80501010,some 0xffffffff80501000⟩]

/-- The run of the sample, with what it leaves. -/
theorem sample_run {system : System}
    (hheap : system.heap=withSubHeap ⟨fun _ => 0,[]⟩ 0xffffffff80501000)
    (hnext : system.manager.heapSpace.nextAddress=0xffffffff81501000) (h : Plentiful 3 system) :
    ∃ last,run step ⟨system,[]⟩ sampleActions=some last ∧
      Each step ReturnsInside ⟨system,[]⟩ sampleActions ∧
      last.system.heap.subHeaps=
        sampleSubHeap 0xffffffff83501000 0xffffffff835010c4::sampleOlder 0xffffffff80501000 ∧
      last.returned=sampleReturned := by
  obtain ⟨first,hfirst,hlist⟩ : ∃ heap,sampleFirst=some (.ok 0xffffffff80501010,heap) ∧
      heap.subHeaps=[sampleSubHeap 0xffffffff80501000 0xffffffff80501050] :=
    answered (by decide +kernel)
  obtain ⟨third,hthird,hlist'⟩ : ∃ heap,sampleThird=some (.ok 0xffffffff83501010,heap) ∧
      heap.subHeaps=
        sampleSubHeap 0xffffffff83501000 0xffffffff83501050::sampleOlder 0xffffffff80501050 :=
    answered (by decide +kernel)
  obtain ⟨fourth,hfourth,-⟩ : ∃ heap,sampleFourth=some (.ok 0xffffffff83501060,heap) ∧
      heap.subHeaps=
        sampleSubHeap 0xffffffff83501000 0xffffffff835010c4::sampleOlder 0xffffffff80501050 :=
    answered (by decide +kernel)
  obtain ⟨freed,hfreed,hlast⟩ : ∃ heap,sampleFreed=some (.ok (),heap) ∧
      heap.subHeaps=
        sampleSubHeap 0xffffffff83501000 0xffffffff835010c4::sampleOlder 0xffffffff80501000 :=
    answered (by decide +kernel)
  rw [sampleFreed,hfourth,Option.bind_some] at hfreed
  rw [sampleFourth,hthird,Option.bind_some] at hfourth
  rw [sampleThird,hfirst,Option.bind_some] at hthird
  rw [sampleFirst,← hheap] at hfirst
  have hclaim : firstSubHeap (canAllocate 64) system.heap.subHeaps=
      some ([],sampleSubHeap 0xffffffff80501000 0xffffffff80501000,[]) := by
    rw [hheap]
    decide +kernel
  obtain ⟨grown,hgrown,hheaps⟩ := (h.withHeap first).findSubHeap
    (by decide : subHeapSize<0x1000001) (by dsimp only; rw [hlist]; decide +kernel)
  dsimp only at hheaps
  rw [hnext] at hheaps
  have hadded : grown.heap.subHeaps=
      sampleSubHeap 0xffffffff83501000 0xffffffff83501000::sampleOlder 0xffffffff80501050 := by
    rw [hheaps]
    dsimp only [withSubHeaps,withSubHeap]
    rw [hlist]
    rfl
  have hgrownClaim : firstSubHeap (canAllocate 64) grown.heap.subHeaps=
      some ([],sampleSubHeap 0xffffffff83501000 0xffffffff83501000,
        sampleOlder 0xffffffff80501050) := by
    rw [hadded]
    decide +kernel
  have hthirdClaim : firstSubHeap (canAllocate 100) third.subHeaps=
      some ([],sampleSubHeap 0xffffffff83501000 0xffffffff83501050,
        sampleOlder 0xffffffff80501050) := by
    rw [hlist']
    decide +kernel
  rw [← hheaps] at hthird
  have hfree : step ⟨{grown with heap := fourth},sampleReturned⟩ (.free 0xffffffff80501010)=
      some ⟨{grown with heap := freed},sampleReturned⟩ := by
    rw [step,KmallocSupply.free,hfreed]
    rfl
  have hrun : run step ⟨system,[]⟩ sampleActions=
        some ⟨{grown with heap := freed},sampleReturned⟩ ∧
      Each step ReturnsInside ⟨system,[]⟩ sampleActions := by
    refine run_claimed (by decide) hclaim hfirst ⟨by decide,by decide⟩ ?_
    refine run_cons (returnsInside_unclaimed (by dsimp only; rw [hlist]; decide +kernel))
      (step_unclaimed (by decide) hgrown) ?_
    refine run_claimed (by decide) hgrownClaim hthird ⟨by decide,by decide⟩ ?_
    refine @run_claimed ⟨{grown with heap := third},_⟩ _ _ _ _ _ _ _ _ (by decide) hthirdClaim
      hfourth ⟨by decide,by decide⟩ ?_
    exact run_cons trivial hfree ⟨rfl,trivial⟩
  exact ⟨_,hrun.1,hrun.2,hlast,rfl⟩

end Sample

/-- In every state of every run from `initialise` on, in which a sub-heap that
claims the bytes of a request returns pointers into its own storage only,
the storage ranges are disjoint and every pointer is freed by the sub-heap that
returned it and by no other. -/
theorem frees_dispatched {base pages : ℕ} (hlow : 0xffffffff80000000≤base)
    (hbase : base<2^64) (haligned : base%Page=0) {memory slabMemory : Memory}
    {slab : SlabAllocator.Slab} {manager : MemoryManager} {system : System}
    {result : Except Error Unit} (hpages : pages≤(heapAddressSpace base).freePages)
    (hspace : manager.heapSpace=taken (heapAddressSpace base) pages)
    (hinit : initialise memory slab slabMemory manager=some (result,system))
    {actions : List Action} (hinside : Each step ReturnsInside ⟨system,[]⟩ actions)
    {last : State} (hrun : run step ⟨system,[]⟩ actions=some last) : Dispatched last := by
  have hstart : Tracked base ⟨system,[]⟩ :=
    ⟨supplied_initialise hlow hbase haligned hpages hspace hinit,List.forall_mem_nil _⟩
  exact (run_keeps_of_each tracked_step hstart hinside hrun).dispatched

/-- Three pointers of two sub-heaps out of four, one of them freed. -/
theorem frees_dispatched_sample : ∃ system last,
    initialise (fun _ => 0) roomySlab.1 roomySlab.2 roomyManager=some (.ok (),system) ∧
      run step ⟨system,[]⟩ sampleActions=some last ∧
      last.system.heap.subHeaps=
        sampleSubHeap 0xffffffff83501000 0xffffffff835010c4::sampleOlder 0xffffffff80501000 ∧
      last.returned=sampleReturned ∧ Dispatched last := by
  obtain ⟨system,hinit,hheap,hnext,hleft⟩ := roomy_initialised
  obtain ⟨last,hrun,hinside,hlist,hreturned⟩ := sample_run hheap hnext hleft
  have hroom : 1≤(heapAddressSpace 0xffffffff80500000).freePages := by decide +kernel
  exact ⟨system,last,hinit,hrun,hlist,hreturned,
    frees_dispatched (by decide) (by decide) (by decide) hroom rfl hinit hinside hrun⟩

end WorkbenchOS.KmallocDispatch
