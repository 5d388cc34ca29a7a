import WorkbenchOS.KmallocRuns

/-!
# The heap over its sub-heaps

`KmallocHeap` keeps a list of sub-heaps, the newest first. It chooses the
sub-heap for a request by `m_available`, which nothing updates after
`initialise`, and returns what that one sub-heap answers. The sub-heap objects
come from a slab page and are never constructed, so one whose storage could
not be allocated stays on the list as the slab left it. What the slab and the
memory manager answer is part of each request.
-/

namespace WorkbenchOS.KmallocHeap

open ByteMemory LibStd SpanLists TransitionRuns
open KmallocSubHeap (SubHeap allocateLoop allocatableSize canary freeCanary next newFreeBlock
  roundedSize sizeofAllocatedBlock subHeapSize walkFuel)
open KmallocFreeList (walk)
open KmallocRuns (freeBlocks)

/-- The fields of a `KmallocSubHeap` object; the links between the objects
are the order of the heap's list. -/
structure Descriptor where
  /-- `m_storage`. -/
  storage : ℕ
  /-- `m_free_list`. -/
  freeList : ℕ
  /-- `m_capacity`. -/
  capacity : ℕ
  /-- `m_available`. -/
  available : ℕ
  deriving DecidableEq

/-- A sub-heap with the memory all sub-heaps share. -/
def Descriptor.over (memory : Memory) (descriptor : Descriptor) : SubHeap where
  memory := memory
  storage := descriptor.storage
  freeList := descriptor.freeList
  capacity := descriptor.capacity
  available := descriptor.available

/-- The object of a sub-heap, without the memory. -/
def descriptorOf (heap : SubHeap) : Descriptor where
  storage := heap.storage
  freeList := heap.freeList
  capacity := heap.capacity
  available := heap.available

/-- `KmallocSubHeap::can_allocate`. -/
def canAllocate (size : ℕ) (descriptor : Descriptor) : Bool := size≤descriptor.available

/-- `KmallocHeap`. -/
structure Heap where
  /-- All bytes the heap code can reach. -/
  memory : Memory
  /-- `m_sub_heaps`, following the `m_next` links. -/
  subHeaps : List Descriptor

/-- What the slab and the memory manager answer when a sub-heap is wanted. -/
inductive Grant where
  /-- The slab has no free object. -/
  | noSlot
  /-- `allocate_kernel_heap_pages` fails; the slab's link to its next object
  is still in the first word. -/
  | noMemory (link : ℕ)
  /-- Both succeed, and the storage begins at this address. -/
  | storage (address : ℕ) (nonzero : address≠0)

/-- A slab object whose `initialise` failed: the link, and zeros. -/
def unconstructed (link : ℕ) : Descriptor := ⟨link,0,0,0⟩

/-- `KmallocHeap::grow`, and the way `KmallocHeap::initialise` makes the first
sub-heap. The result of the sub-heap's own `initialise` is ignored. -/
def grow (heap : Heap) : Grant→Except Error Heap
  | .noSlot => .error (.fromCode 1)
  | .noMemory link => .ok {heap with subHeaps := unconstructed link::heap.subHeaps}
  | .storage address _ =>
    let fresh := KmallocSubHeap.initialise heap.memory address
    .ok ⟨fresh.memory,descriptorOf fresh::heap.subHeaps⟩

/-- `KmallocHeap::initialise`. -/
def initialise (memory : Memory) (grant : Grant) : Except Error Heap :=
  grow ⟨memory,[]⟩ grant

/-- The loop of both operations: the first sub-heap that passes the test, with
the sub-heaps before and after it. -/
def firstSubHeap (test : Descriptor→Bool) :
    List Descriptor→Option (List Descriptor×Descriptor×List Descriptor)
  | [] => none
  | descriptor::rest =>
    if test descriptor then some ([],descriptor,rest)
    else (firstSubHeap test rest).map (fun found => (descriptor::found.1,found.2))

/-- Attempts before `allocate` gives up. -/
def attempts : ℕ := 3

/-- `KmallocHeap::allocate(size, attempt)`, by the number of attempts that
remain. The first sub-heap that claims to have the bytes decides. -/
def allocateAttempt (size : ℕ) (supply : ℕ→Grant) :
    (remaining : ℕ)→Heap→Option (Except Error ℕ×Heap)
  | 0,heap => some (.error (.fromCode 1),heap)
  | remaining+1,heap =>
    match firstSubHeap (canAllocate size) heap.subHeaps with
    | some (front,descriptor,back) =>
      (KmallocSubHeap.allocate (descriptor.over heap.memory) size).map (fun answer =>
        (answer.1,⟨answer.2.memory,front++descriptorOf answer.2::back⟩))
    | none =>
      match grow heap (supply (attempts-(remaining+1))) with
      | .error error => some (.error error,heap)
      | .ok grown => allocateAttempt size supply remaining grown

/-- `KmallocHeap::allocate(size)`. -/
def allocate (heap : Heap) (size : ℕ) (supply : ℕ→Grant) :
    Option (Except Error ℕ×Heap) :=
  if size=0 then some (.error (.withMessage "Cannot allocate zero byte buffer"),heap)
  else allocateAttempt size supply attempts heap

/-- `KmallocHeap::free`. -/
def free (heap : Heap) (address : ℕ) : Option (Except Error Unit×Heap) :=
  match firstSubHeap (fun descriptor =>
      KmallocSubHeap.containsAllocation (descriptor.over heap.memory) address) heap.subHeaps with
  | some (front,descriptor,back) =>
    (KmallocSubHeap.free (descriptor.over heap.memory) address).map (fun answer =>
      (answer.1,⟨answer.2.memory,front++descriptorOf answer.2::back⟩))
  | none => some (.error (.fromCode 1),heap)

/-- What the kernel does with the heap. -/
inductive HeapAction where
  /-- A call of `KmallocHeap::allocate`, with the answers its `grow` would get. -/
  | allocate (size : ℕ) (supply : ℕ→Grant)
  /-- A call of `KmallocHeap::free`. -/
  | free (address : ℕ)
  /-- A client stores a byte. -/
  | store (address : ℕ) (value : UInt8)

/-- One call, whatever it returns. -/
def step (heap : Heap) : HeapAction→Option Heap
  | .allocate size supply => (allocate heap size supply).map Prod.snd
  | .free address => (free heap address).map Prod.snd
  | .store address value =>
    some {heap with memory := fun x => if x=address then value else heap.memory x}

/-- The states a run of calls leads to after a successful `initialise`. -/
def Reachable (heap : Heap) : Prop :=
  ∃ memory grant start actions,
    initialise memory grant=.ok start ∧ run step start actions=some heap

/-- A sub-heap that got its storage claims all of it for ever; one that did
not has no free block and no room. -/
def Settled (descriptor : Descriptor) : Prop :=
  descriptor.available=subHeapSize ∨
    descriptor.available=0 ∧ descriptor.freeList=0 ∧ descriptor.capacity=0

/-- Every sub-heap on the list is settled. -/
def AllSettled (heap : Heap) : Prop := ∀ descriptor∈heap.subHeaps,Settled descriptor

/-- Where the loop stops. -/
theorem firstSubHeap_eq_some {test : Descriptor→Bool} {list front back : List Descriptor}
    {descriptor : Descriptor} (h : firstSubHeap test list=some (front,descriptor,back)) :
    list=front++descriptor::back ∧ test descriptor=true := by
  induction list generalizing front with
  | nil => cases h
  | cons first rest ih =>
    rw [firstSubHeap] at h
    by_cases ht : test first
    · rw [if_pos ht] at h
      cases h
      exact ⟨rfl,ht⟩
    · rw [if_neg ht] at h
      obtain ⟨⟨before,chosen,behind⟩,hf,he⟩ := Option.map_eq_some_iff.mp h
      cases he
      obtain ⟨hl,hd⟩ := ih hf
      exact ⟨congrArg (first::·) hl,hd⟩

/-- The loop runs to the end only past sub-heaps that fail the test. -/
theorem firstSubHeap_eq_none {test : Descriptor→Bool} {list : List Descriptor}
    (h : firstSubHeap test list=none) : ∀ descriptor∈list,test descriptor=false := by
  induction list with
  | nil => simp
  | cons first rest ih =>
    rw [firstSubHeap] at h
    by_cases ht : test first
    · rw [if_pos ht] at h
      cases h
    · rw [if_neg ht] at h
      have hr := Option.map_eq_none_iff.mp h
      exact List.forall_mem_cons.mpr ⟨Bool.eq_false_iff.mpr ht,ih hr⟩

/-- The loop stops at the first sub-heap that passes. -/
theorem firstSubHeap_append {test : Descriptor→Bool} {front back : List Descriptor}
    {descriptor : Descriptor} (hf : ∀ other∈front,test other=false) (hd : test descriptor=true) :
    firstSubHeap test (front++descriptor::back)=some (front,descriptor,back) := by
  induction front with
  | nil =>
    rw [List.nil_append,firstSubHeap,if_pos hd]
  | cons first rest ih =>
    obtain ⟨hfirst,hrest⟩ := List.forall_mem_cons.mp hf
    rw [List.cons_append,firstSubHeap,if_neg (by rw [hfirst]; decide),ih hrest]
    rfl

/-- Without such a sub-heap it runs to the end. -/
theorem firstSubHeap_none {test : Descriptor→Bool} {list : List Descriptor}
    (h : ∀ descriptor∈list,test descriptor=false) : firstSubHeap test list=none := by
  cases hf : firstSubHeap test list with
  | none => rfl
  | some found =>
    obtain ⟨hl,ht⟩ := firstSubHeap_eq_some hf
    have hno := h found.2.1 (by rw [hl]; simp)
    rw [ht] at hno
    cases hno

/-- A sub-heap's `allocate` leaves the other fields of the object alone. -/
theorem allocateLoop_fields {heap after : SubHeap} {size fuel cursor : ℕ} {answer : Except Error ℕ}
    (h : allocateLoop heap size fuel cursor=some (answer,after)) :
    after.storage=heap.storage ∧ after.capacity=heap.capacity ∧
      after.available=heap.available := by
  induction fuel generalizing cursor with
  | zero => cases h
  | succ fuel ih =>
    rw [allocateLoop] at h
    by_cases hz : cursor=0
    · rw [if_pos hz] at h
      cases h
      exact ⟨rfl,rfl,rfl⟩
    rw [if_neg hz] at h
    by_cases hc : canary heap.memory cursor=freeCanary
    · rw [if_neg (not_not.mpr hc)] at h
      by_cases hs : size≤allocatableSize heap.memory cursor
      · rw [if_pos hs] at h
        cases h
        simp only [KmallocOperations.removeFromFreeList_storage,
          KmallocOperations.removeFromFreeList_capacity,
          KmallocOperations.removeFromFreeList_available,and_self]
      · rw [if_neg hs] at h
        exact ih h
    · rw [if_pos hc] at h
      cases h
      exact ⟨rfl,rfl,rfl⟩

/-- Insertion changes memory and list head only. -/
theorem insertIntoFreeList_fields {heap after : SubHeap} {block : ℕ}
    (h : KmallocSubHeap.insertIntoFreeList heap block=some after) :
    after.storage=heap.storage ∧ after.capacity=heap.capacity ∧
      after.available=heap.available := by
  unfold KmallocSubHeap.insertIntoFreeList at h
  split_ifs at h with hz hb
  · cases h
    exact ⟨rfl,rfl,rfl⟩
  · cases h
    exact ⟨rfl,rfl,rfl⟩
  · obtain ⟨memory,-,he⟩ := Option.map_eq_some_iff.mp h
    cases he
    exact ⟨rfl,rfl,rfl⟩

/-- A sub-heap's `free` leaves the other fields of the object alone. -/
theorem free_fields {heap after : SubHeap} {address : ℕ} {answer : Except Error Unit}
    (h : KmallocSubHeap.free heap address=some (answer,after)) :
    after.storage=heap.storage ∧ after.capacity=heap.capacity ∧
      after.available=heap.available := by
  rw [KmallocSubHeap.free] at h
  by_cases hz : address=0
  · rw [if_pos hz] at h
    cases h
    exact ⟨rfl,rfl,rfl⟩
  rw [if_neg hz] at h
  by_cases hc : canary heap.memory (u64Sub address sizeofAllocatedBlock)=
      KmallocSubHeap.allocatedCanary
  · rw [if_neg (not_not.mpr hc)] at h
    obtain ⟨inserted,hi,he⟩ := Option.map_eq_some_iff.mp h
    have hins := insertIntoFreeList_fields hi
    cases he
    exact hins
  · rw [if_pos hc] at h
    cases h
    exact ⟨rfl,rfl,rfl⟩

/-- Replacing a sub-heap that has its storage by one that still claims as
much keeps the list settled. -/
theorem settled_replace {front back : List Descriptor} {before after : Descriptor}
    (h : ∀ descriptor∈front++before::back,Settled descriptor)
    (hb : before.available=subHeapSize) (ha : after.available=before.available) :
    ∀ descriptor∈front++after::back,Settled descriptor := by
  intro descriptor hm
  rw [List.mem_append,List.mem_cons] at hm
  rcases hm with hm|rfl|hm
  · exact h descriptor (List.mem_append_left _ hm)
  · exact Or.inl (ha.trans hb)
  · exact h descriptor (List.mem_append_right _ (List.mem_cons_of_mem _ hm))

/-- Growing adds one settled sub-heap. -/
theorem settled_grow {heap grown : Heap} {grant : Grant} (h : AllSettled heap)
    (hg : grow heap grant=.ok grown) : AllSettled grown := by
  cases grant with
  | noSlot => cases hg
  | noMemory link =>
    cases hg
    exact List.forall_mem_cons.mpr ⟨Or.inr ⟨rfl,rfl,rfl⟩,h⟩
  | storage address nonzero =>
    cases hg
    exact List.forall_mem_cons.mpr ⟨Or.inl rfl,h⟩

/-- A sub-heap that claims at least one byte claims all of them. -/
theorem Settled.available_eq {descriptor : Descriptor} {size : ℕ} (h : Settled descriptor)
    (hs : 1≤ size) (hc : canAllocate size descriptor=true) :
    descriptor.available=subHeapSize := by
  have hle : size≤descriptor.available := of_decide_eq_true hc
  rcases h with h|⟨h,-,-⟩
  · exact h
  · omega

/-- An address can only be found in a sub-heap that has its storage. -/
theorem Settled.available_of_contains {descriptor : Descriptor} {memory : Memory} {address : ℕ}
    (h : Settled descriptor)
    (hc : KmallocSubHeap.containsAllocation (descriptor.over memory) address=true) :
    descriptor.available=subHeapSize := by
  rcases h with h|⟨-,-,h⟩
  · exact h
  · have hin := of_decide_eq_true hc
    simp only [Descriptor.over,h,Nat.add_zero] at hin
    have hwrap := Nat.mod_le descriptor.storage (2^64)
    unfold u64 at hin
    omega

/-- Every attempt keeps the sub-heaps settled. -/
theorem settled_allocateAttempt {size remaining : ℕ} {supply : ℕ→Grant} (hs : 1≤ size)
    {heap after : Heap} {answer : Except Error ℕ} (h : AllSettled heap)
    (ha : allocateAttempt size supply remaining heap=some (answer,after)) : AllSettled after := by
  induction remaining generalizing heap with
  | zero =>
    cases ha
    exact h
  | succ remaining ih =>
    rw [allocateAttempt] at ha
    cases hf : firstSubHeap (canAllocate size) heap.subHeaps with
    | some found =>
      obtain ⟨front,descriptor,back⟩ := found
      rw [hf] at ha
      obtain ⟨result,hr,he⟩ := Option.map_eq_some_iff.mp ha
      cases he
      obtain ⟨hl,hc⟩ := firstSubHeap_eq_some hf
      have hkeep := allocateLoop_fields hr
      unfold AllSettled at h ⊢
      rw [hl] at h
      have hd := h descriptor (List.mem_append_right _ List.mem_cons_self)
      exact settled_replace h (hd.available_eq hs hc) hkeep.2.2
    | none =>
      rw [hf] at ha
      cases hg : grow heap (supply (attempts-(remaining+1))) with
      | error error =>
        simp only [hg] at ha
        cases ha
        exact h
      | ok grown =>
        simp only [hg] at ha
        exact ih (settled_grow h hg) ha

/-- Every call keeps the sub-heaps settled. -/
theorem settled_step (heap : Heap) (action : HeapAction) (after : Heap) (h : AllSettled heap)
    (hs : step heap action=some after) : AllSettled after := by
  cases action with
  | allocate size supply =>
    obtain ⟨answer,ha,rfl⟩ := Option.map_eq_some_iff.mp hs
    rw [allocate] at ha
    by_cases hz : size=0
    · rw [if_pos hz] at ha
      cases ha
      exact h
    · rw [if_neg hz] at ha
      exact settled_allocateAttempt (Nat.one_le_iff_ne_zero.mpr hz) h ha
  | free address =>
    obtain ⟨answer,ha,rfl⟩ := Option.map_eq_some_iff.mp hs
    rw [free] at ha
    split at ha
    · rename_i front descriptor back hf
      obtain ⟨result,hr,rfl⟩ := Option.map_eq_some_iff.mp ha
      obtain ⟨hl,hc⟩ := firstSubHeap_eq_some hf
      have hkeep := free_fields hr
      unfold AllSettled at h ⊢
      rw [hl] at h
      have hd := h descriptor (List.mem_append_right _ List.mem_cons_self)
      exact settled_replace h (hd.available_of_contains hc) hkeep.2.2
    · cases ha
      exact h
  | store address value =>
    cases hs
    exact h

/-- Every reachable heap's sub-heaps are settled. -/
theorem Reachable.allSettled {heap : Heap} (h : Reachable heap) : AllSettled heap := by
  obtain ⟨memory,grant,start,actions,hi,hr⟩ := h
  have hstart : AllSettled start := settled_grow (by simp [AllSettled]) hi
  exact run_keeps settled_step hstart hr

/-- Some block of the list has room for the request. -/
def Holds (memory : Memory) (request : ℕ) (blocks : List Span) : Prop :=
  ∃ block∈blocks,request≤allocatableSize memory block.start

/-- Some block of the list has room for the request, and the blocks up to it
are recognised as free blocks. -/
def Reaches (memory : Memory) (request : ℕ) : List Span→Prop
  | [] => False
  | block::rest => canary memory block.start=freeCanary ∧
      (request≤allocatableSize memory block.start ∨ Reaches memory request rest)

instance decidableReaches (memory : Memory) (request : ℕ) :
    ∀ blocks, Decidable (Reaches memory request blocks)
  | [] => isFalse id
  | _::rest =>
    have := decidableReaches memory request rest
    inferInstanceAs (Decidable (_ ∧ (_ ∨ _)))

/-- The first-fit walk succeeds exactly when it reaches a block with room. -/
theorem allocateLoop_succeeds_iff (heap : SubHeap) (request fuel cursor : ℕ) :
    (∃ address after,allocateLoop heap request fuel cursor=some (.ok address,after)) ↔
      Reaches heap.memory request (walk heap.memory fuel cursor) := by
  induction fuel generalizing cursor with
  | zero => simp [allocateLoop,walk,Reaches]
  | succ fuel ih =>
    rw [allocateLoop,walk]
    by_cases hz : cursor=0
    · simp [hz,Reaches]
    rw [if_neg hz,if_neg hz,Reaches]
    by_cases hc : canary heap.memory cursor=freeCanary
    · rw [if_neg (not_not.mpr hc)]
      by_cases hs : request≤allocatableSize heap.memory cursor
      · rw [if_pos hs]
        exact ⟨fun _ => ⟨hc,Or.inl hs⟩,fun _ => ⟨_,_,rfl⟩⟩
      · rw [if_neg hs,ih]
        exact ⟨fun h => ⟨hc,Or.inr h⟩,fun h => h.2.resolve_left hs⟩
    · rw [if_pos hc]
      simp [hc]

/-- A sub-heap's `allocate` succeeds exactly when its walk reaches a block
with room. -/
theorem subHeap_succeeds_iff (heap : SubHeap) (size : ℕ) :
    (∃ address after,KmallocSubHeap.allocate heap size=some (.ok address,after)) ↔
      Reaches heap.memory (roundedSize size) (freeBlocks heap) :=
  allocateLoop_succeeds_iff heap _ _ _

/-- The largest request one sub-heap can ever serve. -/
def largestRequest : ℕ := subHeapSize-sizeofAllocatedBlock

/-- A fresh sub-heap's only block has room for every request of that size. -/
theorem fresh_reaches (memory : Memory) {address size : ℕ} (hz : address≠0)
    (hs : size≤largestRequest) :
    Reaches (KmallocSubHeap.initialise memory address).memory (roundedSize size)
      (freeBlocks (KmallocSubHeap.initialise memory address)) := by
  have hsmall : subHeapSize<2^64 := by decide
  have hspec := @KmallocOperations.newFreeBlock_spec memory address subHeapSize hsmall
  obtain ⟨hc,hb,-,-,-⟩ := hspec
  have hroom : roundedSize size≤allocatableSize (newFreeBlock memory address subHeapSize) address := by
    rw [allocatableSize,hb,u64Sub_of_le (by decide) hsmall]
    unfold roundedSize
    split
    · decide
    · exact hs
  have hfuel : walkFuel (KmallocSubHeap.initialise memory address)=(subHeapSize-1)+1 := rfl
  have hhead : (KmallocSubHeap.initialise memory address).freeList=address := rfl
  rw [freeBlocks,hfuel,hhead,walk,if_neg hz]
  exact ⟨hc,Or.inl hroom⟩

/-- The request could be served: a free list holds a block with room, or the
slab and the memory manager would supply a fresh sub-heap. -/
def CouldServe (heap : Heap) (size : ℕ) (supply : ℕ→Grant) : Prop :=
  (∃ descriptor∈heap.subHeaps,
    Holds heap.memory (roundedSize size) (freeBlocks (descriptor.over heap.memory))) ∨
  ∃ address nonzero,supply 0=.storage address nonzero

/-- The first sub-heap that claims to have the bytes, if there is one, has a
block with room that its own walk reaches. -/
def ClaimantServes (heap : Heap) (size : ℕ) : Prop :=
  ∀ found∈firstSubHeap (canAllocate size) heap.subHeaps,
    Reaches heap.memory (roundedSize size) (freeBlocks (found.2.1.over heap.memory))

instance (heap : Heap) (size : ℕ) : Decidable (ClaimantServes heap size) :=
  inferInstanceAs (Decidable (∀ found∈firstSubHeap _ _,_))

/-- A sub-heap without storage has nothing on its free list. -/
theorem Settled.holds_nothing {descriptor : Descriptor} {memory : Memory} {request : ℕ}
    (h : Settled descriptor) (ha : descriptor.available≠subHeapSize) :
    ¬Holds memory request (freeBlocks (descriptor.over memory)) := by
  obtain ⟨-,-,hc⟩ := h.resolve_left ha
  have hfuel : walkFuel (descriptor.over memory)=0 := hc
  rw [freeBlocks,hfuel,walk]
  simp [Holds]

/-- A sub-heap that does not claim the bytes of a request any sub-heap could
serve never got its storage. -/
theorem available_ne_of_not_canAllocate {descriptor : Descriptor} {size : ℕ}
    (hs : size≤largestRequest) (h : canAllocate size descriptor=false) :
    descriptor.available≠subHeapSize := by
  intro ha
  have hlt : ¬size≤descriptor.available := of_decide_eq_false h
  rw [ha] at hlt
  unfold largestRequest at hs
  omega

/-- When no sub-heap claims the bytes, `allocate` grows the heap and the fresh
sub-heap serves the request. -/
theorem grown_serves {heap : Heap} {size remaining : ℕ} {supply : ℕ→Grant} {address : ℕ}
    {nonzero : address≠0} (hs : size≤largestRequest)
    (hf : firstSubHeap (canAllocate size) heap.subHeaps=none)
    (hg : supply (attempts-(remaining+2))=.storage address nonzero) :
    ∃ result after,allocateAttempt size supply (remaining+2) heap=some (.ok result,after) := by
  have hclaim : canAllocate size (descriptorOf (KmallocSubHeap.initialise heap.memory address))=true := by
    refine decide_eq_true ?_
    unfold largestRequest at hs
    exact hs.trans (Nat.sub_le _ _)
  obtain ⟨result,after,hr⟩ := (subHeap_succeeds_iff _ size).mpr (fresh_reaches heap.memory nonzero hs)
  rw [allocateAttempt,hf]
  simp only [hg,grow]
  rw [allocateAttempt]
  simp only [firstSubHeap,hclaim,if_true]
  rw [show (descriptorOf (KmallocSubHeap.initialise heap.memory address)).over
    (KmallocSubHeap.initialise heap.memory address).memory=
      KmallocSubHeap.initialise heap.memory address from rfl,hr]
  exact ⟨_,_,rfl⟩

/-- When a sub-heap claims the bytes, its own answer is the heap's. -/
theorem claimant_decides {heap : Heap} {size remaining : ℕ} {supply : ℕ→Grant}
    {front back : List Descriptor} {descriptor : Descriptor}
    (hf : firstSubHeap (canAllocate size) heap.subHeaps=some (front,descriptor,back)) :
    (∃ address after,allocateAttempt size supply (remaining+1) heap=some (.ok address,after)) ↔
      Reaches heap.memory (roundedSize size) (freeBlocks (descriptor.over heap.memory)) := by
  have hsub := subHeap_succeeds_iff (descriptor.over heap.memory) size
  rw [allocateAttempt,hf]
  refine Iff.trans ⟨?_,?_⟩ hsub
  · rintro ⟨address,after,h⟩
    obtain ⟨⟨answer,sub⟩,hr,he⟩ := Option.map_eq_some_iff.mp h
    cases he
    exact ⟨address,sub,hr⟩
  · rintro ⟨address,sub,hr⟩
    exact ⟨_,_,Option.map_eq_some_iff.mpr ⟨_,hr,rfl⟩⟩

/-- In every reachable heap, a request that could be served is served exactly
when the first sub-heap that claims the bytes has them; the later sub-heaps
and a fresh one are not tried. -/
theorem allocate_serves_iff {heap : Heap} (hr : Reachable heap) {size : ℕ} (hp : 1≤ size)
    (hs : size≤largestRequest) {supply : ℕ→Grant} (hc : CouldServe heap size supply) :
    (∃ address after,allocate heap size supply=some (.ok address,after)) ↔
      ClaimantServes heap size := by
  rw [allocate,if_neg (Nat.one_le_iff_ne_zero.mp hp),ClaimantServes]
  cases hf : firstSubHeap (canAllocate size) heap.subHeaps with
  | some found =>
    simp only [Option.mem_some,forall_eq']
    exact claimant_decides hf
  | none =>
    -- no sub-heap with storage exists, so only a fresh one can be meant
    have hempty : ∀ descriptor∈heap.subHeaps,
        ¬Holds heap.memory (roundedSize size) (freeBlocks (descriptor.over heap.memory)) := by
      intro descriptor hm
      have hno := firstSubHeap_eq_none hf descriptor hm
      exact (hr.allSettled descriptor hm).holds_nothing (available_ne_of_not_canAllocate hs hno)
    have hsupply : ∃ address nonzero,supply 0=.storage address nonzero := by
      refine hc.resolve_left ?_
      rintro ⟨descriptor,hm,hh⟩
      exact hempty descriptor hm hh
    obtain ⟨address,nonzero,hg⟩ := hsupply
    exact iff_of_true (grown_serves hs hf hg) (by simp)

/-- A memory manager that always has storage at this address. -/
def plenty (n : ℕ) (_ : ℕ) : Grant := .storage (n+1) (Nat.succ_ne_zero n)

/-- A heap that has served one request, with its sub-heap at `0x1000`. -/
def served (size : ℕ) : Option Heap :=
  (initialise (fun _ => 0) (plenty 0xfff 0)).toOption.bind
    (fun heap => run step heap [.allocate size (plenty 0x1ffffff)])

/-- What `served` returns is reachable. -/
theorem served_reachable {size : ℕ} {heap : Heap} (h : served size=some heap) :
    Reachable heap :=
  ⟨fun _ => 0,plenty 0xfff 0,_,_,rfl,h⟩

/-- After a first small request there is room for a second one. -/
theorem allocate_serves_second : ∃ heap,served 64=some heap ∧
    ∃ address after,allocate heap 100 (plenty 0x1ffffff)=some (.ok address,after) := by
  have hsome : (served 64).isSome=true := by decide +kernel
  obtain ⟨heap,hh⟩ := Option.isSome_iff_exists.mp hsome
  have hroom : (served 64).map (fun heap => decide (ClaimantServes heap 100))=some true := by
    decide +kernel
  rw [hh] at hroom
  have hclaim : ClaimantServes heap 100 := of_decide_eq_true (Option.some.inj hroom)
  exact ⟨heap,hh,(allocate_serves_iff (served_reachable hh) (by decide) (by decide)
    (Or.inr ⟨_,_,rfl⟩)).mpr hclaim⟩

/-- Once one request has taken the whole sub-heap, every later one fails,
though a fresh sub-heap could be had. -/
theorem allocate_not_always_serves : ¬∀ (heap : Heap) (size : ℕ) (supply : ℕ→Grant),
    Reachable heap → 1≤ size → size≤largestRequest → CouldServe heap size supply →
      ∃ address after,allocate heap size supply=some (.ok address,after) := by
  intro hall
  have hsome : (served largestRequest).isSome=true := by decide +kernel
  obtain ⟨heap,hh⟩ := Option.isSome_iff_exists.mp hsome
  have hfail : (served largestRequest).bind (fun heap =>
      (allocate heap 1 (plenty 0x1ffffff)).map Prod.fst)=some (.error (.fromCode 1)) := by
    decide +kernel
  obtain ⟨address,after,ha⟩ := hall heap 1 (plenty 0x1ffffff) (served_reachable hh) (by decide)
    (by decide) (Or.inr ⟨_,_,rfl⟩)
  rw [hh,Option.bind_some,ha] at hfail
  cases hfail

end WorkbenchOS.KmallocHeap
