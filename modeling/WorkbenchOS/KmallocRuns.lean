import WorkbenchOS.KmallocOperations
import WorkbenchOS.TransitionRuns

/-!
# Runs of a kernel sub-heap

A sub-heap and the allocations its clients hold. Clients allocate, free what
they hold and store into their payloads, in any order. The representation
invariant ties the free list in memory and the live headers to a list of
spans; an allocation keeps it when the block first fit selects has a correct
back link, every free and every store keeps it. The free-list shape, the
clients' isolation and the conservation of bytes follow for whole runs.
-/

namespace WorkbenchOS.KmallocRuns

open ByteMemory LibStd SpanLists KmallocSubHeap KmallocFreeList KmallocOperations TransitionRuns

/-- The blocks reached from `m_free_list`. -/
def freeBlocks (heap : SubHeap) : List Span := walk heap.memory (walkFuel heap) heap.freeList

/-- An allocation held by a client: the address handed out and the size
requested. -/
structure Allocation where
  /-- First byte of the payload. -/
  address : ℕ
  /-- The size passed to `allocate`. -/
  size : ℕ
  deriving DecidableEq

/-- Address of the allocated block's header. -/
def Allocation.header (allocation : Allocation) : ℕ := allocation.address-sizeofAllocatedBlock

/-- The bytes the client asked for. -/
def Allocation.payload (allocation : Allocation) : Span := ⟨allocation.address,allocation.size⟩

/-- The header and the bytes the client asked for. -/
def Allocation.claimed (allocation : Allocation) : Span :=
  ⟨allocation.header,sizeofAllocatedBlock+allocation.size⟩

/-- The header and the payload the heap has set aside. -/
def Allocation.occupied (allocation : Allocation) : Span :=
  ⟨allocation.header,sizeofAllocatedBlock+roundedSize allocation.size⟩

/-- A sub-heap with the allocations its clients hold. -/
structure HeapState where
  /-- The sub-heap and its memory. -/
  heap : SubHeap
  /-- What was handed out and not yet freed. -/
  live : List Allocation

/-- What clients do with a sub-heap. -/
inductive HeapAction where
  /-- Ask for a payload of this size. -/
  | allocate (size : ℕ)
  /-- Give back a payload. -/
  | free (address : ℕ)
  /-- Store one byte into a payload. -/
  | store (address offset : ℕ) (value : UInt8)
  deriving DecidableEq

/-- One client action. A successful allocation is held from then on, a
successful free ends the hold. -/
def step (state : HeapState) : HeapAction→Option HeapState
  | .allocate size => (allocate state.heap size).map (fun result => match result with
    | (.ok address,heap) => ⟨heap,⟨address,size⟩::state.live⟩
    | (.error _,heap) => ⟨heap,state.live⟩)
  | .free address => (free state.heap address).map (fun result => match result with
    | (.ok _,heap) => ⟨heap,state.live.eraseP (fun held => held.address=address)⟩
    | (.error _,heap) => ⟨heap,state.live⟩)
  | .store address offset value =>
    some {state with heap :=
      {state.heap with memory := fill state.heap.memory (address+offset) 1 value}}

/-- Clients pass 64-bit sizes, free what they hold and store inside the
payload they asked for. -/
def Legal (state : HeapState) : HeapAction→Prop
  | .allocate size => size<2^64
  | .free address => ∃ held∈state.live,held.address=address
  | .store address offset _ => ∃ held∈state.live,held.address=address ∧ offset<held.size

instance (state : HeapState) : DecidablePred (Legal state)
  | .allocate _ => inferInstanceAs (Decidable (_<_))
  | .free _ => inferInstanceAs (Decidable (∃ held∈state.live,_))
  | .store .. => inferInstanceAs (Decidable (∃ held∈state.live,_))

/-- A fresh sub-heap that nobody has allocated from. -/
def initial (memory : Memory) (storage : ℕ) : HeapState := ⟨initialise memory storage,[]⟩

/-- The sub-heap's free list is `blocks`, and the live allocations occupy
storage of their own. -/
structure Represents (state : HeapState) (blocks : List Span) : Prop where
  /-- Every sub-heap has the same size. -/
  capacity_eq : state.heap.capacity=subHeapSize
  /-- The list head. -/
  head_eq : state.heap.freeList=headOr blocks 0
  /-- The forward links, canaries and sizes in memory. -/
  linked : Linked state.heap.memory blocks 0
  /-- Where the free blocks lie. -/
  layout : Layout state.heap.storage (state.heap.storage+state.heap.capacity) blocks
  /-- Live headers carry their canary and the payload size in use. -/
  header : ∀ held∈state.live,canary state.heap.memory held.header=allocatedCanary ∧
    dataSize state.heap.memory held.header=roundedSize held.size
  /-- Live allocations lie in the storage, behind their header. -/
  inside : ∀ held∈state.live,held.header+sizeofAllocatedBlock=held.address ∧
    held.occupied.Inside state.heap.storage (state.heap.storage+state.heap.capacity)
  /-- Live allocations do not overlap. -/
  apart : state.live.Pairwise (fun first second => first.occupied.Apart second.occupied)
  /-- No free block overlaps a live allocation. -/
  apart_free : ∀ held∈state.live,∀ block∈blocks,held.occupied.Apart block

/-- A request is never served with less than was asked for. -/
theorem size_le_roundedSize (size : ℕ) : size≤roundedSize size := by
  unfold roundedSize
  split <;> omega

namespace Represents

variable {state : HeapState} {blocks : List Span}

/-- The walks never run out of fuel. -/
theorem length_lt (h : Represents state blocks) : blocks.length+2<walkFuel state.heap := by
  have hl := h.layout.length_lt (by rw [h.capacity_eq]; unfold subHeapSize; omega)
  unfold walkFuel
  omega

/-- The represented list is the one reached from `m_free_list`. -/
theorem freeBlocks_eq (h : Represents state blocks) : freeBlocks state.heap=blocks := by
  have hl := h.length_lt
  unfold freeBlocks
  rw [h.head_eq]
  exact h.linked.walk_eq h.layout.start_ne (by omega)

/-- Bytes of a live allocation belong to no free block. -/
theorem not_covered (h : Represents state blocks) {held : Allocation} (hm : held∈state.live)
    {x : ℕ} (hx : held.occupied.Holds x) : ¬Covered blocks x := by
  rintro ⟨block,hb,hin⟩
  have ha := h.apart_free held hm block hb
  unfold Span.Holds Span.Apart at *
  omega

end Represents

/-- A fresh sub-heap is one free block. -/
theorem represents_initial (memory : Memory) {storage : ℕ} (hs : 0<storage)
    (hstop : storage+subHeapSize≤2^64) :
    Represents (initial memory storage) [⟨storage,subHeapSize⟩] := by
  obtain ⟨hc,hb,-,hn,-⟩ := @newFreeBlock_spec memory storage subHeapSize (by decide)
  refine ⟨rfl,rfl,⟨hc,hb,hn,trivial⟩,⟨hs,hstop,List.pairwise_singleton _ _,?_,?_⟩,?_,?_,
    List.Pairwise.nil,?_⟩
  · intro block hm
    cases List.mem_singleton.mp hm
    exact (by decide : sizeofFreeBlock≤ subHeapSize)
  · intro block hm
    cases List.mem_singleton.mp hm
    exact ⟨le_rfl,le_rfl⟩
  all_goals
    intro held hm
    cases hm

namespace Represents

variable {state : HeapState} {blocks front back : List Span} {block : Span} {after : Memory}
  {size : ℕ}

/-- What touches free bytes only leaves every live allocation alone. -/
theorem unchanged (h : Represents state blocks)
    (hframe : ∀ x, ¬Covered blocks x → after x=state.heap.memory x) :
    ∀ held∈state.live,Unchanged state.heap.memory after held.header
      (sizeofAllocatedBlock+roundedSize held.size) :=
  fun _ hm x hx hy => hframe x (h.not_covered hm ⟨hx,hy⟩)

/-- A live header survives when its bytes do. -/
theorem header_kept (h : Represents state blocks) {held : Allocation} (hm : held∈state.live)
    (hu : Unchanged state.heap.memory after held.header
      (sizeofAllocatedBlock+roundedSize held.size)) :
    canary after held.header=allocatedCanary ∧
      dataSize after held.header=roundedSize held.size := by
  have hr := le_roundedSize held.size
  have hu' : Unchanged state.heap.memory after held.header sizeofFreeBlock :=
    hu.mono le_rfl (by omega)
  have hh := h.header held hm
  exact ⟨(word_congr hu' (by omega)).trans hh.1,(word_congr hu' (by omega)).trans hh.2⟩

/-- A request that fits nowhere changes nothing. -/
theorem allocate_full (h : Represents state blocks)
    (hn : ∀ other∈blocks,¬Fits (roundedSize size) other) :
    step state (.allocate size)=some state := by
  have hl := h.length_lt
  have ha := allocate_none h.layout h.linked h.head_eq (by omega) hn
  simp only [step,ha,Option.map_some]

/-- The carved allocation lies in the old block, before its remainder. -/
theorem carved_apart (hfit : Fits (roundedSize size) block)
    (hs : Separated (front++block::back)) :
    ∀ other∈front++(giveBack (roundedSize size) block++back),
      Span.Apart ⟨block.start,sizeofAllocatedBlock+roundedSize size⟩ other := by
  obtain ⟨-,hbs,hfb⟩ := List.pairwise_append.mp hs
  intro other hm
  unfold Fits at hfit
  unfold Span.Apart
  rcases List.mem_append.mp hm with hf|hm
  · have hg := hfb other hf block List.mem_cons_self
    exact Or.inr hg.le
  · rcases List.mem_append.mp hm with hp|hb
    · have hw := giveBack_within hp
      unfold Span.stop at *
      dsimp only
      omega
    · have hg := (List.pairwise_cons.mp hbs).1 other hb
      unfold Span.stop at *
      dsimp only
      omega

/-- An allocation from a block whose back link is right keeps the
representation, with the block replaced by its remainder. -/
theorem allocate_take (h : Represents state (front++block::back))
    (hfit : Fits (roundedSize size) block) (hn : ∀ first∈front,¬Fits (roundedSize size) first)
    (hp : previous state.heap.memory block.start=lastOr front 0) :
    ∃ next, step state (.allocate size)=some next ∧
      next.live=⟨block.start+sizeofAllocatedBlock,size⟩::state.live ∧
      AllocateSpec state.heap.memory next.heap.memory (roundedSize size) block front back ∧
      Represents next (front++(giveBack (roundedSize size) block++back)) := by
  have hl := h.length_lt
  obtain ⟨after,ha,hspec⟩ := allocate_some h.layout h.linked h.head_eq (by omega) hfit hn hp
  have hkept := h.unchanged hspec.frame
  have hblock := h.layout.inside block (by simp)
  set allocation : Allocation := ⟨block.start+sizeofAllocatedBlock,size⟩
  have hheader : allocation.header=block.start := Nat.add_sub_cancel _ _
  have hoccupied : allocation.occupied=
      ⟨block.start,sizeofAllocatedBlock+roundedSize size⟩ := by
    rw [Allocation.occupied,hheader]
  have hstep : step state (.allocate size)=some ⟨{state.heap with
      memory := after,freeList := headOr (front++(giveBack (roundedSize size) block++back)) 0},
      allocation::state.live⟩ := by
    simp only [step,ha,Option.map_some]
    rfl
  refine ⟨_,hstep,rfl,hspec,h.capacity_eq,rfl,hspec.linked,h.layout.take,?_,?_,?_,?_⟩
  · refine List.forall_mem_cons.mpr ⟨?_,fun held hm => h.header_kept hm (hkept held hm)⟩
    change canary after allocation.header=_ ∧ dataSize after allocation.header=_
    rw [hheader]
    exact ⟨hspec.canary_eq,hspec.size_eq⟩
  · refine List.forall_mem_cons.mpr ⟨?_,h.inside⟩
    refine ⟨congrArg (· + sizeofAllocatedBlock) hheader,?_⟩
    rw [hoccupied]
    unfold Fits at hfit
    unfold Span.Inside Span.stop at *
    dsimp only
    omega
  · refine List.pairwise_cons.mpr ⟨?_,h.apart⟩
    intro held hm
    have hb := h.apart_free held hm block (by simp)
    change allocation.occupied.Apart _
    rw [hoccupied]
    unfold Fits at hfit
    unfold Span.Apart Span.stop at *
    dsimp only at *
    omega
  · refine List.forall_mem_cons.mpr ⟨?_,?_⟩
    · change ∀ other∈_,allocation.occupied.Apart other
      rw [hoccupied]
      exact carved_apart hfit h.layout.separated
    · intro held hm other ho
      rcases List.mem_append.mp ho with hf|ho
      · exact h.apart_free held hm other (by simp [hf])
      · rcases List.mem_append.mp ho with hpart|hb
        · have hw := giveBack_within hpart
          have hold := h.apart_free held hm block (by simp)
          unfold Span.Apart at *
          unfold Span.stop at *
          omega
        · exact h.apart_free held hm other (by simp [hb])

/-- A live allocation has a place of its own in the free list. -/
theorem placed (h : Represents state blocks) {held : Allocation} (hm : held∈state.live) :
    ∃ front back, blocks=front++back ∧ Placed state.heap.storage
      (state.heap.storage+state.heap.capacity) held.occupied front back := by
  have hr := le_roundedSize held.size
  obtain ⟨front,back,hs,hf,hb⟩ :=
    exists_split_around h.layout.separated.ascending (h.apart_free held hm)
  refine ⟨front,back,hs,hs ▸ h.layout,?_,(h.inside held hm).2,hf,hb⟩
  change sizeofFreeBlock≤ sizeofAllocatedBlock+roundedSize held.size
  omega

/-- The layout of a list with a placed block released into it. -/
theorem release_layout {low high : ℕ} (h : Placed low high block front back) :
    Layout low high (release block (front++back)) := by
  have hpos : ∀ other∈front++back,0<other.size := by
    intro other ho
    have hz := h.layout.sizes other ho
    unfold sizeofFreeBlock at hz
    omega
  have hsize := h.size
  refine ⟨h.layout.low_pos,h.layout.high_le,?_,?_,release_inside h.inside h.layout.inside⟩
  · refine separated_release h.layout.separated (by unfold sizeofFreeBlock at hsize; omega) hpos ?_
    intro other ho
    rcases List.mem_append.mp ho with hf|hb
    · exact Or.inr (h.before other hf)
    · exact Or.inl (h.behind other hb)
  · have hz : ∀ other∈release block (front++back),
        (fun other : Span => sizeofFreeBlock≤other.size) other :=
      forall_release (fun _ _ ha _ _ => Nat.le_add_right_of_le ha) hsize h.layout.sizes
    exact hz

/-- Apart from all parts, apart from the released list. -/
theorem release_apart {span : Span} (hz : 0<span.size) (hb : span.Apart block)
    (hl : ∀ other∈blocks,span.Apart other) : ∀ other∈release block blocks,span.Apart other := by
  have hr : ∀ other∈release block blocks,(fun other : Span => span.Apart other) other := by
    refine forall_release ?_ hb hl
    intro first second hf hs ht
    unfold Span.Apart Span.stop at *
    dsimp only at *
    omega
  exact hr

/-- The allocations that stay when one of them is freed lie apart from it. -/
theorem apart_of_freed (h : Represents state blocks) {held : Allocation}
    {before behind : List Allocation} (hlive : state.live=before++held::behind) :
    ∀ other∈before++behind,other∈state.live ∧ other.occupied.Apart held.occupied := by
  have hpair := h.apart
  rw [hlive] at hpair
  obtain ⟨-,hbs,hcross⟩ := List.pairwise_append.mp hpair
  intro other ho
  rw [hlive]
  rcases List.mem_append.mp ho with hb|hb
  · exact ⟨by simp [hb],hcross other hb held List.mem_cons_self⟩
  · exact ⟨by simp [hb],((List.pairwise_cons.mp hbs).1 other hb).symm⟩

/-- Freeing a held payload releases the storage it occupied and keeps the
representation. -/
theorem free_held (h : Represents state blocks) {address : ℕ}
    (hlegal : Legal state (.free address)) :
    ∃ held before behind front back next, state.live=before++held::behind ∧
      held.address=address ∧ blocks=front++back ∧
      Placed state.heap.storage (state.heap.storage+state.heap.capacity) held.occupied front
        back ∧
      step state (.free address)=some next ∧ next.live=before++behind ∧
      FreeSpec state.heap.memory next.heap.memory held.occupied front back ∧
      (∀ other∈next.live,Unchanged state.heap.memory next.heap.memory other.header
        (sizeofAllocatedBlock+roundedSize other.size)) ∧
      Represents next (release held.occupied blocks) := by
  obtain ⟨found,hfound,hfa⟩ := hlegal
  obtain ⟨held,before,behind,-,hha,hlive,herase⟩ :=
    List.exists_of_eraseP hfound (p := fun held => held.address=address) (by simpa using hfa)
  have hheld : held.address=address := by simpa using hha
  have hm : held∈state.live := hlive ▸ by simp
  obtain ⟨front,back,rfl,hplaced⟩ := h.placed hm
  obtain ⟨hcanary,hdata⟩ := h.header held hm
  obtain ⟨haddress,-⟩ := h.inside held hm
  have hl := h.length_lt
  obtain ⟨after,hfree,hspec⟩ := free_spec hplaced h.linked h.head_eq (by omega) hcanary (by
    change dataSize _ held.header+_=_
    rw [hdata,Nat.add_comm]
    rfl)
  have hstep : step state (.free address)=some ⟨{state.heap with
      memory := after,freeList := headOr (release held.occupied (front++back)) 0},
      before++behind⟩ := by
    have ha : held.occupied.start+sizeofAllocatedBlock=address := haddress.trans hheld
    rw [ha] at hfree
    simp only [step,hfree,Option.map_some,herase]
  have hothers := apart_of_freed h hlive
  have hkept : ∀ other∈before++behind,Unchanged state.heap.memory after other.header
      (sizeofAllocatedBlock+roundedSize other.size) := by
    intro other ho x hx hy
    obtain ⟨hlm,hap⟩ := hothers other ho
    have hin : other.occupied.Holds x := ⟨hx,hy⟩
    refine hspec.frame x (h.not_covered hlm hin) ?_
    unfold Span.Holds Span.Apart at *
    omega
  refine ⟨held,before,behind,front,back,_,hlive,hheld,rfl,hplaced,hstep,rfl,hspec,
    hkept,h.capacity_eq,rfl,hspec.linked,release_layout hplaced,?_,?_,?_,?_⟩
  · exact fun other ho => h.header_kept (hothers other ho).1 (hkept other ho)
  · exact fun other ho => h.inside other (hothers other ho).1
  · have hpair := h.apart
    rw [hlive] at hpair
    exact hpair.sublist (List.Sublist.append_left (List.sublist_cons_self _ _) _)
  · intro other ho
    obtain ⟨hlm,hap⟩ := hothers other ho
    have hpos : 0<other.occupied.size := Nat.add_pos_left (by decide) _
    exact release_apart hpos hap (h.apart_free other hlm)

/-- A store inside a held payload changes no header and keeps the
representation. -/
theorem store_held (h : Represents state blocks) {address offset : ℕ} {value : UInt8}
    (hlegal : Legal state (.store address offset value)) :
    ∃ next, step state (.store address offset value)=some next ∧ next.live=state.live ∧
      (∀ block∈blocks,previous next.heap.memory block.start=
        previous state.heap.memory block.start) ∧ Represents next blocks := by
  obtain ⟨held,hm,rfl,hoffset⟩ := hlegal
  obtain ⟨haddress,-⟩ := h.inside held hm
  have hr := size_le_roundedSize held.size
  have hframe : ∀ x, x≠held.address+offset →
      fill state.heap.memory (held.address+offset) 1 value x=state.heap.memory x :=
    fun x hx => fill_outside state.heap.memory value (by omega)
  have hblocks : ∀ block∈blocks,Unchanged state.heap.memory
      (fill state.heap.memory (held.address+offset) 1 value) block.start sizeofFreeBlock := by
    intro block hb x hx hy
    have ha := h.apart_free held hm block hb
    have hz := h.layout.sizes block hb
    refine hframe x ?_
    unfold Span.Apart Allocation.occupied Span.stop at ha
    dsimp only at ha
    omega
  refine ⟨_,rfl,rfl,fun block hb => word_congr (hblocks block hb) (by omega),h.capacity_eq,
    h.head_eq,(linked_congr hblocks).mpr h.linked,h.layout,?_,h.inside,h.apart,h.apart_free⟩
  intro other ho
  -- only the two words of the header are at stake, and they precede the payload
  have hwords : Unchanged state.heap.memory
      (fill state.heap.memory (held.address+offset) 1 value) other.header
        sizeofAllocatedBlock := by
    intro x hx hy
    refine hframe x ?_
    by_cases he : other=held
    · subst he
      omega
    · have hsymm : Std.Symm (fun a b : Allocation => a.occupied.Apart b.occupied) :=
        ⟨fun _ _ ha => ha.symm⟩
      have ha := h.apart.forall ho hm he
      unfold Span.Apart Allocation.occupied Span.stop at ha
      dsimp only at ha
      omega
  obtain ⟨hc,hd⟩ := h.header other ho
  exact ⟨(readLE_congr (hwords.mono (by omega) (by unfold sizeofAllocatedBlock; omega))).trans hc,
    (readLE_congr (hwords.mono (by omega) (by unfold sizeofAllocatedBlock; omega))).trans hd⟩

end Represents

section Conditions

variable (state : HeapState)

/-- The block first fit selects for a request of this size, with the blocks
before and after it. -/
def chosen (size : ℕ) : Option (List Span×Span×List Span) :=
  firstFit (Fits (roundedSize size)) (freeBlocks state.heap)

/-- A condition on the selected block, if there is one. -/
def IfChosen (condition : List Span→Span→List Span→Prop) :
    Option (List Span×Span×List Span)→Prop
  | none => True
  | some (front,block,back) => condition front block back

instance (condition : List Span→Span→List Span→Prop)
    [∀ front block back, Decidable (condition front block back)] :
    DecidablePred (IfChosen condition)
  | none => isTrue trivial
  | some (front,block,back) => inferInstanceAs (Decidable (condition front block back))

/-- The block first fit selects has a back link to its predecessor in the
list. -/
def ChosenBackLinked : HeapAction→Prop
  | .allocate size => IfChosen (fun front block _ =>
      previous state.heap.memory block.start=lastOr front 0) (chosen state size)
  | .free _ => True
  | .store .. => True

/-- No successor is left behind a change of the list: the block first fit
selects is not split in front of another one, and a freed block does not
land between two blocks without touching either. -/
def SuccessorKept : HeapAction→Prop
  | .allocate size => IfChosen (fun _ block back =>
      giveBack (roundedSize size) block=[] ∨ back=[]) (chosen state size)
  | .free address => ¬Isolated ⟨u64Sub address sizeofAllocatedBlock,sizeofAllocatedBlock+
      dataSize state.heap.memory (u64Sub address sizeofAllocatedBlock)⟩ (freeBlocks state.heap)
  | .store .. => True

/-- The block first fit selects is used up exactly, or leaves enough for a
block of its own. -/
def ChosenUsedUp : HeapAction→Prop
  | .allocate size => IfChosen (fun _ block _ =>
      block.size=roundedSize size+sizeofAllocatedBlock ∨
        roundedSize size+sizeofAllocatedBlock+sizeofFreeBlock≤block.size) (chosen state size)
  | .free _ => True
  | .store .. => True

instance : DecidablePred (ChosenBackLinked state)
  | .allocate _ => inferInstanceAs (Decidable (IfChosen _ _))
  | .free _ => isTrue trivial
  | .store .. => isTrue trivial

instance : DecidablePred (SuccessorKept state)
  | .allocate _ => inferInstanceAs (Decidable (IfChosen _ _))
  | .free _ => inferInstanceAs (Decidable (¬_))
  | .store .. => isTrue trivial

instance : DecidablePred (ChosenUsedUp state)
  | .allocate _ => inferInstanceAs (Decidable (IfChosen _ _))
  | .free _ => isTrue trivial
  | .store .. => isTrue trivial

end Conditions

/-- The free list reached from `m_free_list` is well formed. -/
structure WellFormed (state : HeapState) : Prop where
  /-- The links lead from the list head to a null pointer, over blocks with
  the free canary. -/
  linked : state.heap.freeList=headOr (freeBlocks state.heap) 0 ∧
    Linked state.heap.memory (freeBlocks state.heap) 0
  /-- Addresses strictly ascend. -/
  ascending : (freeBlocks state.heap).Pairwise (fun first second => first.start<second.start)
  /-- Every block can hold a free block's header. -/
  sizes : ∀ block∈freeBlocks state.heap,sizeofFreeBlock≤block.size
  /-- Blocks do not overlap. -/
  disjoint : (freeBlocks state.heap).Pairwise Span.Apart
  /-- Every block lies in the storage. -/
  inside : ∀ block∈freeBlocks state.heap,
    block.Inside state.heap.storage (state.heap.storage+state.heap.capacity)
  /-- No block overlaps the header or the payload of a live allocation. -/
  apart : ∀ held∈state.live,∀ block∈freeBlocks state.heap,held.claimed.Apart block
  /-- The head's back link is null, every other one leads to the predecessor. -/
  backLinked : BackLinked state.heap.memory (freeBlocks state.heap) 0

/-- The requested payload is part of what the heap has set aside. -/
theorem claimed_apart {held : Allocation} {span : Span} (h : held.occupied.Apart span) :
    held.claimed.Apart span := by
  have hr := size_le_roundedSize held.size
  unfold Span.Apart Span.stop Allocation.claimed Allocation.occupied at *
  dsimp only at *
  omega

/-- A represented list with complete back links is well formed. -/
theorem Represents.wellFormed {state : HeapState}
    (h : Represents state (freeBlocks state.heap))
    (hb : BackLinked state.heap.memory (freeBlocks state.heap) 0) : WellFormed state := by
  refine ⟨⟨h.head_eq,h.linked⟩,?_,h.layout.sizes,h.layout.separated.imp (fun hlt => Or.inl hlt.le),
    h.layout.inside,fun held hm block hb => claimed_apart (h.apart_free held hm block hb),hb⟩
  refine h.layout.separated.imp (fun hlt => ?_)
  unfold Span.stop at hlt
  omega

/-- Every client action whose chosen block is correctly linked returns and
keeps the representation. -/
theorem represents_step (state : HeapState) (action : HeapAction)
    (h : Represents state (freeBlocks state.heap))
    (hc : Legal state action ∧ ChosenBackLinked state action) :
    ∃ next, step state action=some next ∧ Represents next (freeBlocks next.heap) := by
  cases action with
  | allocate size =>
    have hlink : IfChosen _ (chosen state size) := hc.2
    cases hfit : chosen state size with
    | none => exact ⟨state,h.allocate_full (firstFit_eq_none hfit),h⟩
    | some found =>
      obtain ⟨front,block,back⟩ := found
      rw [hfit] at hlink
      obtain ⟨hs,hblock,hn⟩ := firstFit_eq_some hfit
      rw [hs] at h
      obtain ⟨next,hstep,-,-,hnext⟩ := h.allocate_take hblock hn hlink
      exact ⟨next,hstep,hnext.freeBlocks_eq.symm ▸ hnext⟩
  | free address =>
    obtain ⟨_,_,_,_,_,next,-,-,-,-,hstep,-,-,-,hnext⟩ := h.free_held hc.1
    exact ⟨next,hstep,hnext.freeBlocks_eq.symm ▸ hnext⟩
  | store address offset value =>
    obtain ⟨next,hstep,-,-,hnext⟩ := h.store_held hc.1
    exact ⟨next,hstep,hnext.freeBlocks_eq.symm ▸ hnext⟩

/-- The chosen block of a fully linked list has the right back link. -/
theorem previous_chosen {memory : Memory} {front back : List Span} {block : Span}
    (hb : BackLinked memory (front++block::back) 0) :
    previous memory block.start=lastOr front 0 :=
  ((backLinked_append front (block::back) 0).mp hb).2.1

/-- What one client action does to complete back links. -/
theorem backLinked_step (state : HeapState) (action : HeapAction)
    (h : Represents state (freeBlocks state.heap))
    (hb : BackLinked state.heap.memory (freeBlocks state.heap) 0) (hl : Legal state action) :
    ∃ next, step state action=some next ∧ Represents next (freeBlocks next.heap) ∧
      (BackLinked next.heap.memory (freeBlocks next.heap) 0 ↔ SuccessorKept state action) := by
  cases action with
  | allocate size =>
    cases hfit : chosen state size with
    | none =>
      refine ⟨state,h.allocate_full (firstFit_eq_none hfit),h,iff_of_true hb ?_⟩
      rw [SuccessorKept,hfit]
      trivial
    | some found =>
      obtain ⟨front,block,back⟩ := found
      obtain ⟨hs,hblock,hn⟩ := firstFit_eq_some hfit
      rw [hs] at h hb
      obtain ⟨next,hstep,-,hspec,hnext⟩ := h.allocate_take hblock hn (previous_chosen hb)
      refine ⟨next,hstep,hnext.freeBlocks_eq.symm ▸ hnext,?_⟩
      rw [hnext.freeBlocks_eq,SuccessorKept,hfit]
      exact hspec.backLinked_iff hb
  | free address =>
    obtain ⟨held,before,behind,front,back,next,hlive,hheld,hs,hplaced,hstep,-,hspec,-,
      hnext⟩ :=
      h.free_held hl
    refine ⟨next,hstep,hnext.freeBlocks_eq.symm ▸ hnext,?_⟩
    have hm : held∈state.live := hlive ▸ by simp
    have hstart : u64Sub address sizeofAllocatedBlock=held.header := by
      have ha := (h.inside held hm).1
      have hstop := hplaced.stop_le held.occupied (by simp)
      rw [← hheld,← ha]
      refine (u64Sub_of_le (Nat.le_add_left _ _) ?_).trans (Nat.add_sub_cancel _ _)
      unfold Span.stop Allocation.occupied at hstop
      have hr := le_roundedSize held.size
      unfold sizeofFreeBlock at hr
      dsimp only at hstop
      omega
    have hspan : (⟨held.header,sizeofAllocatedBlock+dataSize state.heap.memory held.header⟩ :
        Span)=held.occupied := by
      rw [(h.header held hm).2]
      rfl
    rw [SuccessorKept,hstart,hspan,hnext.freeBlocks_eq,hs]
    rw [hs] at hb
    exact ⟨fun hafter hi => hspec.stale hb hi hafter,hspec.backLinked hb⟩
  | store address offset value =>
    obtain ⟨next,hstep,-,hkept,hnext⟩ := h.store_held hl
    refine ⟨next,hstep,hnext.freeBlocks_eq.symm ▸ hnext,?_⟩
    rw [hnext.freeBlocks_eq]
    exact iff_of_true ((backLinked_congr hkept).mpr hb) trivial

/-- The free list is represented and linked in both directions. -/
def FullyLinked (state : HeapState) : Prop :=
  Represents state (freeBlocks state.heap) ∧
    BackLinked state.heap.memory (freeBlocks state.heap) 0

/-- The free list of a fresh sub-heap, with its null back link. -/
theorem fullyLinked_initial (memory : Memory) {storage : ℕ} (hs : 0<storage)
    (hstop : storage+subHeapSize≤2^64) : FullyLinked (initial memory storage) := by
  have hr := represents_initial memory hs hstop
  have hp := (@newFreeBlock_spec memory storage subHeapSize (by decide)).2.2.1
  rw [FullyLinked,hr.freeBlocks_eq]
  exact ⟨hr,hp,trivial⟩

/-- The free list stays well formed along exactly those runs in which no
split and no insertion leaves a successor behind. -/
theorem freeList_wellFormed_iff (memory : Memory) {storage : ℕ} (hs : 0<storage)
    (hstop : storage+subHeapSize≤2^64) {actions : List HeapAction}
    (hlegal : Each step Legal (initial memory storage) actions) :
    Always step WellFormed (initial memory storage) actions ↔
      Each step SuccessorKept (initial memory storage) actions := by
  have hproperty : ∀ state, FullyLinked state → WellFormed state :=
    fun state h => h.1.wellFormed h.2
  refine always_iff_each hproperty ?_ ?_ (fullyLinked_initial memory hs hstop) hlegal
  · intro state action h hl hc
    obtain ⟨next,hstep,hr,hb⟩ := backLinked_step state action h.1 h.2 hl
    exact ⟨next,hstep,hr,hb.mpr hc⟩
  · intro state action h hl hc next hstep hw
    obtain ⟨next',hstep',-,hb⟩ := backLinked_step state action h.1 h.2 hl
    have he : next'=next := Option.some.inj (hstep'.symm.trans hstep)
    subst he
    exact hc (hb.mp hw.backLinked)

/-- A fresh sub-heap at a small address, over zeroed memory. -/
def sample : HeapState := initial (fun _ => 0) 0x1000

/-- Two neighbours are freed in turn; every insertion touches the list. -/
theorem freeList_wellFormed_neighbours :
    Each step Legal sample [.allocate 100,.allocate 40,.free 0x1010,.free 0x1084] ∧
      Always step WellFormed sample [.allocate 100,.allocate 40,.free 0x1010,.free 0x1084] := by
  have hlegal : Each step Legal sample
      [.allocate 100,.allocate 40,.free 0x1010,.free 0x1084] := by decide +kernel
  refine ⟨hlegal,?_⟩
  exact (freeList_wellFormed_iff (fun _ => 0) (by decide) (by decide) hlegal).mpr
    (by decide +kernel)

/-- Allocating from a freed block in front of another one splits it and
leaves that one pointing back at the allocated block. -/
theorem freeList_not_always_wellFormed : ¬∀ (memory : Memory) (storage : ℕ)
    (actions : List HeapAction), 0<storage → storage+subHeapSize≤2^64 →
    Each step Legal (initial memory storage) actions →
    Always step WellFormed (initial memory storage) actions := by
  intro h
  have hw := h (fun _ => 0) 0x1000 [.allocate 128,.allocate 32,.free 0x1010,.allocate 32]
    (by decide) (by decide) (by decide +kernel)
  obtain ⟨last,hlast,hlinked⟩ := (hw.imp (fun _ hf => hf.backLinked)).final
  have hstale : (run step (initial (fun _ => 0) 0x1000)
      [.allocate 128,.allocate 32,.free 0x1010,.allocate 32]).map (fun state =>
        decide (BackLinked state.heap.memory (freeBlocks state.heap) 0))=some false := by
    decide +kernel
  rw [hlast,Option.map_some,Option.some.injEq,decide_eq_false_iff_not] at hstale
  exact hstale hlinked

/-- Live payloads are pairwise disjoint and inside the storage. -/
structure PayloadsApart (state : HeapState) : Prop where
  /-- No two clients share a byte. -/
  apart : state.live.Pairwise (fun first second => first.payload.Apart second.payload)
  /-- Every payload lies in the storage. -/
  inside : ∀ held∈state.live,held.payload.Inside state.heap.storage
    (state.heap.storage+state.heap.capacity)

/-- An `allocate` or `free` call changes no byte of the header or payload of
an allocation that stays live across it. -/
def Undisturbed (state : HeapState) (action : HeapAction) : Prop :=
  match action with
  | .store .. => True
  | _ => ∀ next, step state action=some next → ∀ held∈state.live,held∈next.live →
      Unchanged state.heap.memory next.heap.memory held.claimed.start held.claimed.size

/-- Represented allocations have disjoint payloads. -/
theorem Represents.payloadsApart {state : HeapState} {blocks : List Span}
    (h : Represents state blocks) : PayloadsApart state := by
  constructor
  · refine h.apart.imp_of_mem ?_
    intro first second hf hs ha
    have haf := (h.inside first hf).1
    have has := (h.inside second hs).1
    have hrf := size_le_roundedSize first.size
    have hrs := size_le_roundedSize second.size
    unfold Span.Apart Span.stop Allocation.payload Allocation.occupied at *
    dsimp only at *
    omega
  · intro held hm
    obtain ⟨ha,hin⟩ := h.inside held hm
    have hr := size_le_roundedSize held.size
    unfold Span.Inside Span.stop Allocation.payload Allocation.occupied at *
    dsimp only at *
    omega

/-- An allocation from a correctly linked block and any free leave every
other live allocation alone. -/
theorem undisturbed_step (state : HeapState) (action : HeapAction)
    (h : Represents state (freeBlocks state.heap))
    (hc : Legal state action ∧ ChosenBackLinked state action) : Undisturbed state action := by
  have hclaimed : ∀ (held : Allocation) (after : Memory), Unchanged state.heap.memory after
      held.header (sizeofAllocatedBlock+roundedSize held.size) →
      Unchanged state.heap.memory after held.claimed.start held.claimed.size := by
    intro held after hu
    have hr := size_le_roundedSize held.size
    exact hu.mono le_rfl (by change held.header+(sizeofAllocatedBlock+held.size)≤_; omega)
  cases action with
  | allocate size =>
    intro next hnext held hm hm'
    have hlink : IfChosen _ (chosen state size) := hc.2
    cases hfit : chosen state size with
    | none =>
      have hsame := h.allocate_full (firstFit_eq_none hfit)
      cases Option.some.inj (hsame.symm.trans hnext)
      exact fun x _ _ => rfl
    | some found =>
      obtain ⟨front,block,back⟩ := found
      rw [hfit] at hlink
      obtain ⟨hs,hblock,hn⟩ := firstFit_eq_some hfit
      rw [hs] at h
      obtain ⟨next',hstep,-,hspec,-⟩ := h.allocate_take hblock hn hlink
      cases Option.some.inj (hstep.symm.trans hnext)
      exact hclaimed held _ (h.unchanged hspec.frame held hm)
  | free address =>
    intro next hnext held hm hm'
    obtain ⟨_,_,_,_,_,next',-,-,-,-,hstep,-,-,hkept,-⟩ := h.free_held hc.1
    cases Option.some.inj (hstep.symm.trans hnext)
    exact hclaimed held _ (hkept held hm')
  | store address offset value => trivial

/-- Clients are isolated from each other and from the heap's own writes
along every run in which each selected block is linked back to its
predecessor. -/
theorem payloads_isolated (memory : Memory) {storage : ℕ} (hs : 0<storage)
    (hstop : storage+subHeapSize≤2^64) {actions : List HeapAction}
    (hlegal : Each step Legal (initial memory storage) actions)
    (hlinked : Each step ChosenBackLinked (initial memory storage) actions) :
    Always step PayloadsApart (initial memory storage) actions ∧
      Each step Undisturbed (initial memory storage) actions := by
  have hinit := (fullyLinked_initial memory hs hstop).1
  have hboth := hlegal.and hlinked
  constructor
  · exact (always_of_each represents_step hinit hboth).imp (fun _ h => h.payloadsApart)
  · exact each_of_each represents_step undisturbed_step hinit hboth

/-- Three clients with a store in between; the freed block is the head. -/
theorem payloads_isolated_store :
    Each step Legal sample [.allocate 100,.allocate 5,.store 0x1010 99 7,.free 0x1010,
        .allocate 64] ∧
      Always step PayloadsApart sample [.allocate 100,.allocate 5,.store 0x1010 99 7,
        .free 0x1010,.allocate 64] ∧
      Each step Undisturbed sample [.allocate 100,.allocate 5,.store 0x1010 99 7,
        .free 0x1010,.allocate 64] := by
  have hlegal : Each step Legal sample [.allocate 100,.allocate 5,.store 0x1010 99 7,
    .free 0x1010,.allocate 64] := by decide +kernel
  refine ⟨hlegal,?_⟩
  exact payloads_isolated (fun _ => 0) (by decide) (by decide) hlegal (by decide +kernel)

/-- A client's payload is overwritten: the block behind a split still points
back at the allocation carved from it, and removing it stores through that
link. -/
theorem payloads_not_always_isolated : ¬∀ (memory : Memory) (storage : ℕ)
    (actions : List HeapAction), 0<storage → storage+subHeapSize≤2^64 →
    Each step Legal (initial memory storage) actions →
    Always step PayloadsApart (initial memory storage) actions ∧
      Each step Undisturbed (initial memory storage) actions := by
  intro h
  have he := (h (fun _ => 0) 0x1000 [.allocate 128,.allocate 32,.free 0x1010,.allocate 32,
    .allocate 128] (by decide) (by decide) (by decide +kernel)).2
  have hstate : ((run step (initial (fun _ => 0) 0x1000)
      [.allocate 128,.allocate 32,.free 0x1010,.allocate 32]).map (fun state =>
        (decide (⟨0x1010,32⟩∈state.live),(step state (.allocate 128)).map (fun next =>
          (decide (⟨0x1010,32⟩∈next.live),
            decide (next.heap.memory 0x1018=state.heap.memory 0x1018))))))=
      some (true,some (true,false)) := by decide +kernel
  obtain ⟨state,hrun,hprobe⟩ := Option.map_eq_some_iff.mp hstate
  rw [Prod.mk.injEq,decide_eq_true_eq] at hprobe
  obtain ⟨next,hnext,hbytes⟩ := Option.map_eq_some_iff.mp hprobe.2
  rw [Prod.mk.injEq,decide_eq_true_eq,decide_eq_false_iff_not] at hbytes
  have hlast : Undisturbed state (.allocate 128) := he.last hrun
  exact hbytes.2 (hlast next hnext ⟨0x1010,32⟩ hprobe.1 hbytes.1 0x1018 (by decide) (by decide))

/-- Storage the live allocations occupy: headers, and the payload sizes that
freeing will give back. -/
def liveBytes (state : HeapState) : ℕ :=
  (state.live.map (fun held =>
    sizeofAllocatedBlock+dataSize state.heap.memory held.header)).sum

/-- Free and occupied bytes add up to the capacity, and without live
allocations the free list is the initial block again. -/
structure Conserved (state : HeapState) : Prop where
  /-- Every byte is on the free list or occupied. -/
  total_eq : total (freeBlocks state.heap)+liveBytes state=state.heap.capacity
  /-- With nothing live, the free list is one block of the whole capacity. -/
  whole : state.live=[] → freeBlocks state.heap=[⟨state.heap.storage,state.heap.capacity⟩]

/-- The payload sizes in memory are those the allocations were made with. -/
theorem Represents.liveBytes_eq {state : HeapState} {blocks : List Span}
    (h : Represents state blocks) :
    liveBytes state=(state.live.map (fun held => held.occupied.size)).sum := by
  refine congrArg List.sum (List.map_congr_left (fun held hm => ?_))
  rw [(h.header held hm).2]
  rfl

/-- Carving from a block that is used up or split loses nothing. -/
theorem total_carved {size : ℕ} {block : Span}
    (hu : block.size=roundedSize size+sizeofAllocatedBlock ∨
      roundedSize size+sizeofAllocatedBlock+sizeofFreeBlock≤block.size) :
    total (giveBack (roundedSize size) block)+(sizeofAllocatedBlock+roundedSize size)=
      block.size := by
  unfold giveBack
  split
  · rename_i hsplit
    rw [total_cons,total_nil]
    dsimp only
    omega
  · rename_i hwhole
    rw [total_nil]
    omega

/-- Every byte of the sub-heap is accounted for. -/
def Balanced (state : HeapState) : Prop :=
  Represents state (freeBlocks state.heap) ∧
    total (freeBlocks state.heap)+(state.live.map (fun held => held.occupied.size)).sum=
      state.heap.capacity

/-- The condition under which a client action loses no byte. -/
def NothingLost (state : HeapState) (action : HeapAction) : Prop :=
  ChosenBackLinked state action ∧ ChosenUsedUp state action

instance (state : HeapState) : DecidablePred (NothingLost state) :=
  fun _ => inferInstanceAs (Decidable (_ ∧ _))

/-- A client action that meets the condition keeps the balance. -/
theorem balanced_step (state : HeapState) (action : HeapAction) (h : Balanced state)
    (hc : Legal state action ∧ NothingLost state action) :
    ∃ next, step state action=some next ∧ Balanced next := by
  obtain ⟨hr,hbalance⟩ := h
  cases action with
  | allocate size =>
    have hlink : IfChosen _ (chosen state size) := hc.2.1
    have hused : IfChosen _ (chosen state size) := hc.2.2
    cases hfit : chosen state size with
    | none => exact ⟨state,hr.allocate_full (firstFit_eq_none hfit),hr,hbalance⟩
    | some found =>
      obtain ⟨front,block,back⟩ := found
      rw [hfit] at hlink hused
      obtain ⟨hs,hblock,hn⟩ := firstFit_eq_some hfit
      rw [hs] at hr hbalance
      obtain ⟨next,hstep,hlive,-,hnext⟩ := hr.allocate_take hblock hn hlink
      refine ⟨next,hstep,hnext.freeBlocks_eq.symm ▸ hnext,?_⟩
      have hcarved := total_carved hused
      have hcapacity : next.heap.capacity=state.heap.capacity :=
        hnext.capacity_eq.trans hr.capacity_eq.symm
      rw [hnext.freeBlocks_eq,hlive,hcapacity,← hbalance]
      simp only [total_append,total_cons,List.map_cons,List.sum_cons,Allocation.occupied]
      omega
  | free address =>
    obtain ⟨held,before,behind,front,back,next,hlive,-,-,-,hstep,hlive',-,-,hnext⟩ :=
      hr.free_held hc.1
    refine ⟨next,hstep,hnext.freeBlocks_eq.symm ▸ hnext,?_⟩
    have hcapacity : next.heap.capacity=state.heap.capacity :=
      hnext.capacity_eq.trans hr.capacity_eq.symm
    rw [hnext.freeBlocks_eq,hlive',hcapacity,← hbalance,hlive,total_release]
    simp only [List.map_append,List.sum_append,List.map_cons,List.sum_cons]
    omega
  | store address offset value =>
    obtain ⟨next,hstep,hlive,-,hnext⟩ := hr.store_held hc.1
    refine ⟨next,hstep,hnext.freeBlocks_eq.symm ▸ hnext,?_⟩
    have hcapacity : next.heap.capacity=state.heap.capacity :=
      hnext.capacity_eq.trans hr.capacity_eq.symm
    rw [hnext.freeBlocks_eq,hlive,hcapacity,hbalance]

/-- A balanced sub-heap is conserved; an empty one has merged back to a
single block. -/
theorem Balanced.conserved {state : HeapState} (h : Balanced state) : Conserved state := by
  obtain ⟨hr,hbalance⟩ := h
  refine ⟨by rw [hr.liveBytes_eq,hbalance],fun hnone => ?_⟩
  rw [hnone,List.map_nil,List.sum_nil,Nat.add_zero] at hbalance
  have hpos : 0<state.heap.capacity := by
    rw [hr.capacity_eq]
    decide
  have hone := eq_singleton_of_total hr.layout.separated (Nat.lt_add_of_pos_right hpos)
    hr.layout.inside (by rw [hbalance,Nat.add_comm])
  rwa [Nat.add_sub_cancel_left] at hone

/-- No byte is lost along every run in which each selected block is linked
back to its predecessor and used up or split. -/
theorem bytes_conserved (memory : Memory) {storage : ℕ} (hs : 0<storage)
    (hstop : storage+subHeapSize≤2^64) {actions : List HeapAction}
    (hlegal : Each step Legal (initial memory storage) actions)
    (hkept : Each step NothingLost (initial memory storage) actions) :
    Always step Conserved (initial memory storage) actions := by
  have hr := represents_initial memory hs hstop
  have hinit : Balanced (initial memory storage) := by
    refine ⟨(fullyLinked_initial memory hs hstop).1,?_⟩
    rw [hr.freeBlocks_eq]
    rfl
  exact (always_of_each balanced_step hinit (hlegal.and hkept)).imp
    (fun _ h => h.conserved)

/-- Three payloads freed out of order merge back to the initial block. -/
theorem bytes_conserved_reordered :
    Each step Legal sample [.allocate 100,.allocate 0,.allocate 500,.free 0x1010,.free 0x10b4,
        .free 0x1084] ∧
      Always step Conserved sample [.allocate 100,.allocate 0,.allocate 500,.free 0x1010,
        .free 0x10b4,.free 0x1084] := by
  have hlegal : Each step Legal sample [.allocate 100,.allocate 0,.allocate 500,.free 0x1010,
    .free 0x10b4,.free 0x1084] := by decide +kernel
  refine ⟨hlegal,?_⟩
  exact bytes_conserved (fun _ => 0) (by decide) (by decide) hlegal (by decide +kernel)

/-- A request that leaves less than a free block's header takes the block
whole but records only its own size: the rest is lost for good. -/
theorem bytes_not_always_conserved : ¬∀ (memory : Memory) (storage : ℕ)
    (actions : List HeapAction), 0<storage → storage+subHeapSize≤2^64 →
    Each step Legal (initial memory storage) actions →
    Always step Conserved (initial memory storage) actions := by
  intro h
  have hw := h (fun _ => 0) 0x1000 [.allocate 0xffffe0,.free 0x1010]
    (by decide) (by decide) (by decide +kernel)
  obtain ⟨last,hlast,htotal⟩ := (hw.imp (fun _ hc => hc.total_eq)).final
  have hlost : (run step (initial (fun _ => 0) 0x1000)
      [.allocate 0xffffe0,.free 0x1010]).map (fun state =>
        decide (total (freeBlocks state.heap)+liveBytes state=state.heap.capacity))=
      some false := by decide +kernel
  rw [hlast,Option.map_some,Option.some.injEq,decide_eq_false_iff_not] at hlost
  exact hlost htotal

end WorkbenchOS.KmallocRuns
