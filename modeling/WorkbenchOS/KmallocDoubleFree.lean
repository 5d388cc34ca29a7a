import WorkbenchOS.KmallocRuns

/-!
# Freeing an allocation twice

Freeing turns the header of the allocation into that of a free block. The
insertion and the merges with the neighbours store into sizes and links
only, so the canary at the old header stays that of a free block even when
the block has become part of its predecessor: a second `free` of the same
address fails at the canary test and changes nothing.
-/

namespace WorkbenchOS.KmallocDoubleFree

open ByteMemory LibStd SpanLists KmallocSubHeap KmallocFreeList KmallocOperations KmallocRuns
  TransitionRuns

/-- A sub-heap with a well-formed free list and one live allocation. Free
blocks may touch each other and the allocation; the back links are not
needed. -/
structure HeldBeside (heap : SubHeap) (blocks : List Span) (held : Span) : Prop where
  /-- The storage starts behind the null address. -/
  storage_pos : 0<heap.storage
  /-- The storage ends inside the address space. -/
  stop_le : heap.storage+heap.capacity≤2^64
  /-- The list head. -/
  head_eq : heap.freeList=headOr blocks 0
  /-- Canaries, sizes and forward links of the free list. -/
  linked : Linked heap.memory blocks 0
  /-- The list is in address order and no two blocks overlap. -/
  ascending : Ascending blocks
  /-- Every free block can hold a free block's header. -/
  sizes : ∀ block∈blocks,sizeofFreeBlock≤block.size
  /-- Every free block lies in the storage. -/
  inside : ∀ block∈blocks,block.Inside heap.storage (heap.storage+heap.capacity)
  /-- The allocation carries its canary. -/
  canary_eq : canary heap.memory held.start=allocatedCanary
  /-- The allocation is its header and its payload. -/
  size_eq : dataSize heap.memory held.start+sizeofAllocatedBlock=held.size
  /-- The allocation can hold a free block's header. -/
  size_le : sizeofFreeBlock≤held.size
  /-- The allocation lies in the storage. -/
  held_inside : held.Inside heap.storage (heap.storage+heap.capacity)
  /-- The allocation overlaps no free block. -/
  apart : ∀ block∈blocks,held.Apart block

/-- The allocations of a run are held beside its free list. -/
theorem heldBeside_of_live {state : HeapState} {blocks : List Span}
    (h : Represents state blocks) {held : Allocation} (hm : held∈state.live) :
    HeldBeside state.heap blocks held.occupied := by
  have hh := h.header held hm
  have hr := le_roundedSize held.size
  refine ⟨h.layout.low_pos,h.layout.high_le,h.head_eq,h.linked,h.layout.separated.ascending,
    h.layout.sizes,h.layout.inside,hh.1,?_,?_,(h.inside held hm).2,h.apart_free held hm⟩
  · change dataSize state.heap.memory held.header+sizeofAllocatedBlock=
      sizeofAllocatedBlock+roundedSize held.size
    rw [hh.2,Nat.add_comm]
  · change sizeofFreeBlock≤ sizeofAllocatedBlock+roundedSize held.size
    omega

/-- Merging a touching successor leaves the successor's own canary where it
is. -/
theorem canary_coalesceWithNextBlock {memory : Memory} {block later : Span} {rest : List Span}
    (hapart : HeaderApart later.start block.start)
    (hrest : ∀ other∈rest,HeaderApart later.start other.start)
    (hz : ∀ other∈rest,other.start≠0) (h : Linked memory (block::later::rest) 0) :
    canary (coalesceWithNextBlock memory block.start) later.start=canary memory later.start := by
  cases hcan : canCoalesceNext memory block.start with
  | true =>
    rw [coalesceWithNextBlock_touching hcan hz hapart h]
    unfold canary mergedWithNext
    rw [word_setHeadPrevious (by omega) hrest,word_setWord_apart _ _ hapart (by omega) (by omega),
      word_setWord_apart _ _ hapart (by omega) (by omega)]
  | false => rw [coalesceWithNextBlock,if_neg (by rw [hcan]; decide)]

/-- The blocks of a list lie one behind the other in a range of nonzero
addresses, each large enough for a header. Neighbours may touch. -/
structure Lined (low high : ℕ) (blocks : List Span) : Prop where
  /-- No block starts at the null address. -/
  low_pos : 0<low
  /-- The range ends inside the address space. -/
  high_le : high≤2^64
  /-- In address order, without overlap. -/
  ascending : Ascending blocks
  /-- Every block can hold a free block's header. -/
  sizes : ∀ block∈blocks,sizeofFreeBlock≤block.size
  /-- Every block lies in the range. -/
  inside : ∀ block∈blocks,block.Inside low high

namespace Lined

variable {low high : ℕ} {held : Span} {blocks front back : List Span} {memory : Memory}

/-- Headers of different blocks do not overlap. -/
theorem spread (h : Lined low high blocks) : Spread blocks := by
  refine h.ascending.imp_of_mem ?_
  intro first second hf _ hle
  have hsize := h.sizes first hf
  unfold Span.stop at hle
  omega

/-- No block is at the null address. -/
theorem start_ne (h : Lined low high blocks) : ∀ block∈blocks,block.start≠0 := by
  intro block hm
  have hl := (h.inside block hm).1
  have hp := h.low_pos
  omega

/-- Every block ends inside the address space. -/
theorem stop_le (h : Lined low high blocks) : ∀ block∈blocks,block.stop≤2^64 :=
  fun block hm => (h.inside block hm).2.trans h.high_le

/-- Every block starts inside the address space. -/
theorem start_lt (h : Lined low high blocks) : ∀ block∈blocks,block.start<2^64 := by
  intro block hm
  have hs := h.stop_le block hm
  have hz := h.sizes block hm
  unfold Span.stop at hs
  unfold sizeofFreeBlock at hz
  omega

/-- A walk along the blocks ends within the fuel of the source's loops. -/
theorem length_lt (h : Lined low high (front++held::back)) :
    front.length+back.length+1<high-low := by
  have hi := h.inside held (by simp)
  have hz := h.sizes held (by simp)
  have hlh : low≤high := hi.1.trans ((Nat.le_add_right _ _).trans hi.2)
  have hm := length_mul_le h.ascending hlh h.inside h.sizes
  simp only [List.length_append,List.length_cons] at hm
  unfold sizeofFreeBlock at hm
  omega

/-- A list with its front cut off is lined up as well. -/
theorem behind (h : Lined low high (front++blocks)) : Lined low high blocks :=
  ⟨h.low_pos,h.high_le,(List.pairwise_append.mp h.ascending).2.1,
    fun block hm => h.sizes block (List.mem_append_right _ hm),
    fun block hm => h.inside block (List.mem_append_right _ hm)⟩

/-- The merge with the successor: the list behind the block, and the block's
own back link. -/
theorem coalesce_next (h : Lined low high (held::back)) (hl : Linked memory (held::back) 0) :
    CoalesceSpec memory (coalesceWithNextBlock memory held.start) held back :=
  coalesceWithNextBlock_spec h.spread h.start_ne h.stop_le h.sizes
    (List.pairwise_cons.mp h.ascending).1 hl

/-- Both merges leave the canary of a free block at the block's start,
whether or not the block is still one of the list. -/
theorem canary_merged (h : Lined low high (front++held::back))
    (hl : Linked memory (front++held::back) 0)
    (hp : previous memory held.start=lastOr front 0) :
    canary (coalesceWithPreviousBlock (coalesceWithNextBlock memory held.start) held.start)
      held.start=freeCanary := by
  have hspec := h.behind.coalesce_next ((linked_append front (held::back) 0).mp hl).2
  have hfar := unchanged_front h.spread hspec.frame
  set joined := coalesceWithNextBlock memory held.start
  obtain ⟨head,rest,hjoin,hstart,hrest⟩ := exists_joinFront held back
  have hlinked := hspec.linked
  rw [hjoin] at hlinked
  have hcanary : canary joined held.start=freeCanary := by
    rw [← hstart]
    exact hlinked.1
  rcases List.eq_nil_or_concat' front with rfl|⟨init,last,rfl⟩
  · rw [coalesceWithPreviousBlock_null (hspec.previous_eq.trans hp)]
    exact hcanary
  · -- the predecessor looks at the block as its own successor
    have hlast : Linked memory (last::held::back) 0 := by
      rw [List.append_assoc,List.singleton_append] at hl
      exact ((linked_append init _ 0).mp hl).2
    have hu := hfar last (by simp)
    have hnext : next joined last.start=held.start :=
      (word_congr hu (by omega)).trans hlast.2.2.1
    have hprevious : previous joined held.start=last.start := by
      rw [hspec.previous_eq,hp,lastOr_append]
      rfl
    rw [coalesceWithPreviousBlock_eq (h.start_ne held (by simp)) (h.start_ne last (by simp))
      hprevious hnext]
    have happart := spread_middle h.spread
    have hmem : ∀ other∈rest,other∈init++[last]++held::back :=
      fun other hm => List.mem_append_right _ (List.mem_cons_of_mem _ (hrest other hm))
    have hchain : Linked joined (last::head::rest) 0 := by
      refine ⟨(word_congr hu (by omega)).trans hlast.1,
        (word_congr hu (by omega)).trans hlast.2.1,hnext.trans hstart.symm,hlinked⟩
    have hkept : canary (coalesceWithNextBlock joined last.start) head.start=
        canary joined head.start := by
      refine canary_coalesceWithNextBlock ?_ ?_ (fun other hm => h.start_ne other (hmem other hm))
        hchain
      · rw [hstart]
        exact (happart last (by simp)).symm
      · intro other hm
        rw [hstart]
        exact (happart other (List.mem_append_right _ (hrest other hm))).symm
    rw [← hstart,hkept,hstart]
    exact hcanary

end Lined

namespace HeldBeside

variable {heap : SubHeap} {blocks : List Span} {held : Span}

/-- The allocation has a place of its own in the free list, which is lined
up with the allocation in it. -/
theorem split (h : HeldBeside heap blocks held) : ∃ front back,blocks=front++back ∧
    Lined heap.storage (heap.storage+heap.capacity) (front++held::back) := by
  obtain ⟨front,back,hs,hf,hb⟩ := exists_split_around h.ascending h.apart
  have hold := h.ascending
  rw [hs] at hold
  obtain ⟨hfs,hbs,hfb⟩ := List.pairwise_append.mp hold
  have hcases : ∀ other∈front++held::back,other=held ∨ other∈blocks := by
    intro other hm
    rw [hs]
    simp only [List.mem_append,List.mem_cons] at hm ⊢
    tauto
  refine ⟨front,back,hs,h.storage_pos,h.stop_le,
    List.pairwise_append.mpr ⟨hfs,List.pairwise_cons.mpr ⟨hb,hbs⟩,?_⟩,?_,?_⟩
  · intro first hm other ho
    rcases List.mem_cons.mp ho with rfl|ho
    · exact hf first hm
    · exact hfb first hm other ho
  · intro other hm
    rcases hcases other hm with rfl|ho
    · exact h.size_le
    · exact h.sizes other ho
  · intro other hm
    rcases hcases other hm with rfl|ho
    · exact h.held_inside
    · exact h.inside other ho

/-- The header address computed from the payload pointer. -/
theorem header_eq (h : HeldBeside heap blocks held) :
    u64Sub (held.start+sizeofAllocatedBlock) sizeofAllocatedBlock=held.start := by
  have hi := h.held_inside
  have hs := h.stop_le
  have hz := h.size_le
  have hlt : held.start+sizeofAllocatedBlock<2^64 := by
    unfold Span.Inside Span.stop at hi
    unfold sizeofAllocatedBlock
    unfold sizeofFreeBlock at hz
    omega
  rw [u64Sub_of_le (Nat.le_add_left _ _) hlt,Nat.add_sub_cancel]

/-- Freeing the allocation succeeds and leaves the canary of a free block at
its old header. -/
theorem free_canary (h : HeldBeside heap blocks held) : ∃ after,
    free heap (held.start+sizeofAllocatedBlock)=some (.ok (),after) ∧
      canary after.memory held.start=freeCanary := by
  obtain ⟨front,back,hs,hL⟩ := h.split
  have hsize : held.size<2^64 := by
    have hi := h.held_inside
    have hp := h.storage_pos
    have hh := h.stop_le
    unfold Span.Inside Span.stop at hi
    omega
  obtain ⟨hbc,hbs,hbp,hbn,hframe⟩ := @newFreeBlock_spec heap.memory held.start _ hsize
  generalize hbuilt : newFreeBlock heap.memory held.start held.size=built at hbc hbs hbp hbn hframe
  have hlinked : Linked built (front++back) 0 := by
    refine (linked_congr ?_).mpr (hs ▸ h.linked)
    intro other hm x hx hy
    refine hframe x ?_
    have ha := spread_middle hL.spread other hm
    unfold HeaderApart at ha
    omega
  have hfuel := hL.length_lt
  rw [Nat.add_sub_cancel_left] at hfuel
  obtain ⟨inserted,hins,hspec⟩ := @insertIntoFreeList_spec {heap with memory := built} held front
    back hL.spread hL.start_ne hL.start_lt hbc hbs hbp hbn hlinked (hs ▸ h.head_eq) hfuel
  have hcanary := hL.canary_merged hspec.linked hspec.previous_eq
  generalize hmerged : coalesceWithPreviousBlock (coalesceWithNextBlock inserted held.start)
    held.start=merged at hcanary
  refine ⟨{heap with memory := merged,freeList := headOr (front++held::back) 0},?_,hcanary⟩
  have hnull : ¬held.start+sizeofAllocatedBlock=0 := by
    unfold sizeofAllocatedBlock
    omega
  rw [free,if_neg hnull]
  dsimp only
  rw [h.header_eq,if_neg (not_not.mpr h.canary_eq),h.size_eq,u64_of_lt hsize,hbuilt,hins,
    Option.map_some,hmerged]

end HeldBeside

/-- A live allocation can be freed once: the second `free` of its pointer
fails and leaves the sub-heap as the first one left it. -/
theorem double_free_caught {heap : SubHeap} {blocks : List Span} {held : Span}
    (h : HeldBeside heap blocks held) : ∃ after,
    free heap (held.start+sizeofAllocatedBlock)=some (.ok (),after) ∧
      free after (held.start+sizeofAllocatedBlock)=some (.error (.fromCode 1),after) := by
  obtain ⟨after,hfree,hcanary⟩ := h.free_canary
  have hnull : ¬held.start+sizeofAllocatedBlock=0 := by
    unfold sizeofAllocatedBlock
    omega
  have hdead : ¬canary after.memory held.start=allocatedCanary := by
    rw [hcanary]
    decide
  refine ⟨after,hfree,?_⟩
  rw [free,if_neg hnull]
  dsimp only
  rw [h.header_eq,if_pos hdead]

/-- The second of three neighbours is freed twice, after the first: it merges
with that one and its header is no longer a block's. -/
theorem double_free_caught_merged : ∃ state,
    run step sample [.allocate 100,.allocate 40,.allocate 40,.free 0x1010]=some state ∧
      ∃ after,free state.heap 0x1084=some (.ok (),after) ∧
        free after 0x1084=some (.error (.fromCode 1),after) := by
  have hboth : Each step (fun state action => Legal state action ∧ ChosenBackLinked state action)
      sample [.allocate 100,.allocate 40,.allocate 40,.free 0x1010] := by decide +kernel
  have hinit : Represents sample (freeBlocks sample.heap) :=
    (fullyLinked_initial (fun _ => 0) (by decide) (by decide)).1
  obtain ⟨state,hrun,hr⟩ := (always_of_each represents_step hinit hboth).final
  have hlive : (run step sample [.allocate 100,.allocate 40,.allocate 40,.free 0x1010]).map
      (fun state => decide (⟨0x1084,40⟩∈state.live))=some true := by decide +kernel
  rw [hrun,Option.map_some,Option.some.injEq,decide_eq_true_eq] at hlive
  have haddress : (Allocation.occupied ⟨0x1084,40⟩).start+sizeofAllocatedBlock=0x1084 := by decide
  obtain ⟨after,hfree,hagain⟩ := double_free_caught (heldBeside_of_live hr hlive)
  rw [haddress] at hfree hagain
  exact ⟨state,hrun,after,hfree,hagain⟩

end WorkbenchOS.KmallocDoubleFree
