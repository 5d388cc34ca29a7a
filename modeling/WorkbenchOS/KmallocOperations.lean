import WorkbenchOS.KmallocFreeList

/-!
# What allocating and freeing do to the free list

The list operations compose to two refinement statements: `allocate` takes
the first block that fits and gives its remainder back, `free` releases the
freed block into the list. Both are the abstract operations on spans. The
back links are tracked exactly, so that the places where the source leaves
one stale are part of the statements.
-/

namespace WorkbenchOS.KmallocOperations

open ByteMemory LibStd SpanLists KmallocSubHeap KmallocFreeList

/-- Where the blocks of a free list lie: separated, large enough for a
header and inside the storage, which is a range of nonzero addresses. -/
structure Layout (low high : ℕ) (blocks : List Span) : Prop where
  /-- No block starts at the null address. -/
  low_pos : 0<low
  /-- The storage ends inside the address space. -/
  high_le : high≤2^64
  /-- Ascending, disjoint and nowhere touching. -/
  separated : Separated blocks
  /-- Every block can hold a free block's header. -/
  sizes : ∀ block∈blocks,sizeofFreeBlock≤block.size
  /-- Every block lies in the storage. -/
  inside : ∀ block∈blocks,block.Inside low high

namespace Layout

variable {low high : ℕ} {blocks : List Span}

/-- Headers of different blocks do not overlap. -/
theorem spread (h : Layout low high blocks) : Spread blocks := by
  refine h.separated.imp_of_mem ?_
  intro first second hf hs hlt
  have hsize := h.sizes first hf
  unfold Span.stop at hlt
  omega

/-- No block is at the null address. -/
theorem start_ne (h : Layout low high blocks) : ∀ block∈blocks,block.start≠0 := by
  intro block hm
  have hl := (h.inside block hm).1
  have hp := h.low_pos
  omega

/-- Every block ends inside the address space. -/
theorem stop_le (h : Layout low high blocks) : ∀ block∈blocks,block.stop≤2^64 :=
  fun block hm => (h.inside block hm).2.trans h.high_le

/-- There are far fewer blocks than bytes of storage. -/
theorem length_lt (h : Layout low high blocks) (hlh : low+64≤high) :
    blocks.length+2<high-low := by
  have hm := length_mul_le h.separated.ascending (by omega) h.inside h.sizes
  unfold sizeofFreeBlock at hm
  omega

end Layout

/-- Memory after an insertion between `front` and `back`. -/
structure InsertSpec (memory after : Memory) (block : Span) (front back : List Span) :
    Prop where
  /-- The block is in its place of the forward list. -/
  linked : Linked after (front++block::back) 0
  /-- The block's own back link is right. -/
  previous_eq : previous after block.start=lastOr front 0
  /-- Back links before the block are untouched. -/
  back_front : ∀ first∈front,previous after first.start=previous memory first.start
  /-- At the head of the list the old head points back at the block. -/
  back_head : front=[] → ∀ later rest, back=later::rest → previous after later.start=block.start
  /-- Elsewhere the successor's back link is not updated. -/
  back_stale : front≠[] → ∀ later∈back,previous after later.start=previous memory later.start
  /-- Back links behind the successor are untouched. -/
  back_tail : ∀ later∈back.tail,previous after later.start=previous memory later.start
  /-- Only headers of the list are written. -/
  frame : ∀ x, (∀ other∈front++block::back,x<other.start ∨ other.start+sizeofFreeBlock≤x) →
    after x=memory x

/-- The stores that put a block before the head of the list. -/
theorem insertedBefore_spec {memory : Memory} {block later : Span} {rest : List Span}
    (hs : Spread (block::later::rest)) (hlt : ∀ other∈block::later::rest,other.start<2^64)
    (hc : canary memory block.start=freeCanary) (hb : blockSize memory block.start=block.size)
    (hp : previous memory block.start=0) (hl : Linked memory (later::rest) 0) :
    InsertSpec memory (setWord (setWord memory block.start 3 later.start) later.start 2 block.start)
      block [] (later::rest) := by
  obtain ⟨hback,hbs⟩ := List.pairwise_cons.mp hs
  have hapart : HeaderApart block.start later.start := Or.inl (hback later List.mem_cons_self)
  have hkept : ∀ field,field<4 → field≠3 →
      word (setWord (setWord memory block.start 3 later.start) later.start 2 block.start)
        block.start field=word memory block.start field :=
    fun field hf hne => (word_setWord_apart _ _ hapart (by omega) hf).trans
      (word_setWord_ne _ _ _ hne)
  refine ⟨⟨?_,?_,?_,?_⟩,?_,by simp,?_,fun hne => absurd rfl hne,?_,?_⟩
  · exact (hkept 0 (by omega) (by omega)).trans hc
  · exact (hkept 1 (by omega) (by omega)).trans hb
  · refine (word_setWord_apart _ _ hapart (by omega) (by omega)).trans ?_
    exact (word_setWord_self _ _ _ _).trans (u64_of_lt (hlt later (by simp)))
  · refine (linked_setHeadPrevious_self hbs).mpr ?_
    exact (linked_setWord (by omega) (fun other hm => Or.inl (Or.inr (hback other hm)))).mpr hl
  · exact (hkept 2 (by omega) (by omega)).trans hp
  · rintro - later' rest' he
    cases he
    exact (word_setWord_self _ _ _ _).trans (u64_of_lt (hlt block List.mem_cons_self))
  · intro other hm
    have ha : HeaderApart other.start later.start := Or.inr ((List.pairwise_cons.mp hbs).1 other hm)
    refine (word_setWord_apart _ _ ha (by omega) (by omega)).trans ?_
    exact word_setWord_apart _ _ (Or.inr (hback other (List.mem_cons_of_mem _ hm)))
      (by omega) (by omega)
  · intro x hx
    rw [setWord_frame _ _ (hx later (by simp)) (by omega),
      setWord_frame _ _ (hx block (by simp)) (by omega)]

/-- The stores that put a block behind others. -/
theorem insertedBehind_spec {memory : Memory} {block : Span} {front back : List Span}
    (hs : Spread (front++block::back)) (hne : front≠[])
    (hlt : ∀ other∈front++block::back,other.start<2^64)
    (hlinked : Linked (insertedBehind memory block.start front back) (front++block::back) 0) :
    InsertSpec memory (insertedBehind memory block.start front back) block front back := by
  obtain ⟨hfs,hbs,hfb⟩ := List.pairwise_append.mp hs
  obtain ⟨hback,-⟩ := List.pairwise_cons.mp hbs
  have hcross : ∀ other∈front,HeaderApart block.start other.start :=
    fun other hm => Or.inr (hfb other hm block List.mem_cons_self)
  refine ⟨hlinked,?_,?_,fun hnil => absurd hnil hne,?_,?_,?_⟩
  · have hplt : lastOr front 0<2^64 := by
      obtain ⟨last,hm,he⟩ := lastOr_mem 0 hne
      exact he ▸ hlt last (List.mem_append_left _ hm)
    refine (word_setLastNext (by omega) hcross).trans ?_
    exact (word_setWord_self _ _ _ _).trans (u64_of_lt hplt)
  · intro other hm
    have ha := Or.symm (hcross other hm)
    refine (previous_setLastNext (Or.inl hm) hfs).trans ?_
    exact (word_setWord_apart _ _ ha (by omega) (by omega)).trans
      (word_setWord_apart _ _ ha (by omega) (by omega))
  · intro _ later hm
    exact insertedBehind_previous hfs hfb hback later hm
  · intro later hm
    exact insertedBehind_previous hfs hfb hback later (List.mem_of_mem_tail hm)
  · intro x hx
    have hxb := hx block (by simp)
    refine (setLastNext_frame (fun other hm => hx other (List.mem_append_left _ hm))).trans ?_
    rw [setWord_frame _ _ hxb (by omega),setWord_frame _ _ hxb (by omega)]

/-- `insert_into_free_list` of a freshly built block. -/
theorem insertIntoFreeList_spec {heap : SubHeap} {block : Span} {front back : List Span}
    (hs : Spread (front++block::back)) (hz : ∀ other∈front++block::back,other.start≠0)
    (hlt : ∀ other∈front++block::back,other.start<2^64)
    (hc : canary heap.memory block.start=freeCanary)
    (hb : blockSize heap.memory block.start=block.size)
    (hp : previous heap.memory block.start=0) (hn : next heap.memory block.start=0)
    (hl : Linked heap.memory (front++back) 0) (hh : heap.freeList=headOr (front++back) 0)
    (hf : front.length+back.length+1<walkFuel heap) :
    ∃ after, insertIntoFreeList heap block.start=some {heap with
        memory := after,freeList := headOr (front++block::back) 0} ∧
      InsertSpec heap.memory after block front back := by
  obtain ⟨-,hbs,hfb⟩ := List.pairwise_append.mp hs
  cases front with
  | nil =>
    cases back with
    | nil =>
      have hnull : heap.freeList=0 := hh
      refine ⟨heap.memory,?_,?_⟩
      · rw [insertIntoFreeList,if_pos hnull]
        rfl
      · exact ⟨⟨hc,hb,hn,trivial⟩,hp,by simp,fun _ _ _ he => absurd he.symm (List.cons_ne_nil _ _),
          by simp,by simp,fun _ _ => rfl⟩
    | cons later rest =>
      have hhead : heap.freeList=later.start := hh
      have hg := (List.pairwise_cons.mp hbs).1 later List.mem_cons_self
      have hnull : ¬heap.freeList=0 := hhead ▸ hz later (by simp)
      have hless : block.start<heap.freeList := by
        rw [hhead]
        unfold sizeofFreeBlock at hg
        omega
      refine ⟨setWord (setWord heap.memory block.start 3 later.start) later.start 2 block.start,
        ?_,insertedBefore_spec hs hlt hc hb hp hl⟩
      rw [insertIntoFreeList,if_neg hnull,if_pos hless,hhead]
      rfl
  | cons first rest =>
    have hne : first::rest≠[] := List.cons_ne_nil _ _
    have hg := hfb first List.mem_cons_self block List.mem_cons_self
    have hhead : heap.freeList=first.start := hh
    have hnull : ¬heap.freeList=0 := hhead ▸ hz first (by simp)
    have hless : ¬block.start<heap.freeList := by
      rw [hhead]
      unfold sizeofFreeBlock at hg
      omega
    obtain ⟨hloop,hlinked⟩ := insertLoop_spec hs hz (hlt block (by simp)) hne hc hb hl hf
    refine ⟨insertedBehind heap.memory block.start (first::rest) back,?_,
      insertedBehind_spec hs hne hlt hlinked⟩
    rw [insertIntoFreeList,if_neg hnull,if_neg hless,hh,hloop]
    rfl

/-- A request of this payload size fits the block: what the comparison with
`allocatable_size` decides for a well-sized block. -/
def Fits (request : ℕ) (block : Span) : Prop := request+sizeofAllocatedBlock≤block.size

instance (request : ℕ) : DecidablePred (Fits request) :=
  fun _ => inferInstanceAs (Decidable (_≤_))

/-- The source's comparison is the abstract one on a block of the list. -/
theorem le_allocatableSize_iff {memory : Memory} {block : Span} {request : ℕ}
    (hb : blockSize memory block.start=block.size) (hs : sizeofFreeBlock≤block.size) :
    request≤allocatableSize memory block.start ↔ Fits request block := by
  have hlt : block.size<2^64 := hb ▸ readLE_lt _ _ _
  unfold sizeofFreeBlock at hs
  unfold allocatableSize Fits
  rw [hb,u64Sub_of_le (by unfold sizeofAllocatedBlock; omega) hlt]
  unfold sizeofAllocatedBlock
  omega

/-- First fit walks past the blocks that are too small. -/
theorem allocateLoop_front {heap : SubHeap} {request fuel tail : ℕ} {front : List Span}
    (hl : Linked heap.memory front tail) (hz : ∀ block∈front,block.start≠0)
    (hs : ∀ block∈front,sizeofFreeBlock≤block.size) (hn : ∀ block∈front,¬Fits request block) :
    allocateLoop heap request (front.length+fuel) (headOr front tail)=
      allocateLoop heap request fuel tail := by
  induction front with
  | nil =>
    rw [List.length_nil,Nat.zero_add]
    rfl
  | cons block rest ih =>
    obtain ⟨hc,hb,hnext,hlr⟩ := hl
    obtain ⟨hzb,hzr⟩ := List.forall_mem_cons.mp hz
    obtain ⟨hsb,hsr⟩ := List.forall_mem_cons.mp hs
    obtain ⟨hnb,hnr⟩ := List.forall_mem_cons.mp hn
    have hsmall : ¬request≤allocatableSize heap.memory block.start :=
      fun h => hnb ((le_allocatableSize_iff hb hsb).mp h)
    rw [List.length_cons,show rest.length+1+fuel=rest.length+fuel+1 by omega]
    change allocateLoop heap request (rest.length+fuel+1) block.start=_
    rw [allocateLoop,if_neg hzb,if_neg (not_not.mpr hc),if_neg hsmall,hnext]
    exact ih hlr hzr hsr hnr

/-- Memory after an allocation from a block between `front` and `back`. -/
structure AllocateSpec (memory after : Memory) (request : ℕ) (block : Span)
    (front back : List Span) : Prop where
  /-- The forward list, with the block replaced by its remainder. -/
  linked : Linked after (front++(giveBack request block++back)) 0
  /-- The allocated header carries its canary. -/
  canary_eq : canary after block.start=allocatedCanary
  /-- The allocated header carries the payload size. -/
  size_eq : dataSize after block.start=request
  /-- Back links before the block are untouched. -/
  back_front : ∀ first∈front,previous after first.start=previous memory first.start
  /-- The block now behind `front` points back at it. -/
  back_head : ∀ later rest, giveBack request block++back=later::rest →
    previous after later.start=lastOr front 0
  /-- Back links further behind are untouched. -/
  back_tail : ∀ later∈back,later∈(giveBack request block++back).tail →
    previous after later.start=previous memory later.start
  /-- Only bytes of the old free list are written. -/
  frame : ∀ x, ¬Covered (front++block::back) x → after x=memory x

/-- The header of a block lies inside the block. -/
theorem header_frame {blocks : List Span} (hs : ∀ block∈blocks,sizeofFreeBlock≤block.size)
    {x : ℕ} (hx : ¬Covered blocks x) :
    ∀ block∈blocks,x<block.start ∨ block.start+sizeofFreeBlock≤x := by
  intro block hm
  have hsize := hs block hm
  by_contra hc
  refine hx ⟨block,hm,?_⟩
  unfold Span.Holds Span.stop
  omega

/-- The carved block and its remainder lie inside the old block. -/
theorem giveBack_within {request : ℕ} {block part : Span} (hm : part∈giveBack request block) :
    block.start+sizeofAllocatedBlock+request=part.start ∧ part.stop=block.stop ∧
      sizeofFreeBlock≤part.size := by
  unfold giveBack at hm
  split at hm
  · rename_i hfit
    cases List.mem_singleton.mp hm
    unfold Span.stop sizeofFreeBlock sizeofAllocatedBlock at *
    dsimp only
    omega
  · cases hm

/-- Taking a block out of a layout, up to its remainder, leaves a layout. -/
theorem Layout.take {low high request : ℕ} {block : Span} {front back : List Span}
    (h : Layout low high (front++block::back)) :
    Layout low high (front++(giveBack request block++back)) := by
  obtain ⟨hfs,hbs,hfb⟩ := List.pairwise_append.mp h.separated
  obtain ⟨hback,hbs'⟩ := List.pairwise_cons.mp hbs
  have hin := h.inside block (by simp)
  refine ⟨h.low_pos,h.high_le,?_,?_,?_⟩
  · refine List.pairwise_append.mpr ⟨hfs,List.pairwise_append.mpr ⟨?_,hbs',?_⟩,?_⟩
    · unfold giveBack
      split
      · exact List.pairwise_singleton _ _
      · exact List.Pairwise.nil
    · intro part hp later hl
      have hw := giveBack_within hp
      have hg := hback later hl
      omega
    · intro first hf other ho
      rcases List.mem_append.mp ho with hp|hl
      · have hw := giveBack_within hp
        have hg := hfb first hf block List.mem_cons_self
        omega
      · exact hfb first hf other (List.mem_cons_of_mem _ hl)
  · intro other ho
    rcases List.mem_append.mp ho with hf|ho
    · exact h.sizes other (by simp [hf])
    · rcases List.mem_append.mp ho with hp|hl
      · exact (giveBack_within hp).2.2
      · exact h.sizes other (by simp [hl])
  · intro other ho
    rcases List.mem_append.mp ho with hf|ho
    · exact h.inside other (by simp [hf])
    · rcases List.mem_append.mp ho with hp|hl
      · have hw := giveBack_within hp
        unfold Span.Inside at *
        omega
      · exact h.inside other (by simp [hl])

/-- Complete back links stay complete exactly when the block is not split in
front of another one: a split leaves that one pointing at the carved block. -/
theorem AllocateSpec.backLinked_iff {request : ℕ} {memory after : Memory} {block : Span}
    {front back : List Span} (h : AllocateSpec memory after request block front back)
    (hb : BackLinked memory (front++block::back) 0) :
    BackLinked after (front++(giveBack request block++back)) 0 ↔
      giveBack request block=[] ∨ back=[] := by
  obtain ⟨hbf,-,hbb⟩ := (backLinked_append front (block::back) 0).mp hb
  have hfront : BackLinked after front 0 := (backLinked_congr h.back_front).mpr hbf
  rw [backLinked_append front (giveBack request block++back) 0,and_iff_right hfront]
  have hhead := h.back_head
  have htail := h.back_tail
  rcases hg : giveBack request block with _|⟨part,parts⟩
  · rw [hg] at hhead htail
    refine iff_of_true ?_ (Or.inl rfl)
    cases back with
    | nil => trivial
    | cons later rest =>
      refine ⟨hhead later rest rfl,(backLinked_congr ?_).mpr hbb.2⟩
      exact fun other hm => htail other (List.mem_cons_of_mem _ hm) hm
  · have hparts : parts=[] ∧ part.start≠block.start := by
      unfold giveBack at hg
      split at hg
      · cases hg
        refine ⟨rfl,?_⟩
        unfold sizeofAllocatedBlock
        dsimp only
        omega
      · cases hg
    obtain ⟨rfl,hne⟩ := hparts
    rw [hg] at hhead htail
    cases back with
    | nil => exact iff_of_true ⟨hhead part [] rfl,trivial⟩ (Or.inr rfl)
    | cons later rest =>
      refine iff_of_false ?_ (by simp)
      rintro ⟨-,hlater,-⟩
      have hkept := htail later List.mem_cons_self List.mem_cons_self
      exact hne (hlater.symm.trans (hkept.trans hbb.1))

/-- A request that fits no block fails and changes nothing. -/
theorem allocate_none {heap : SubHeap} {low high size : ℕ} {blocks : List Span}
    (hL : Layout low high blocks) (hl : Linked heap.memory blocks 0)
    (hh : heap.freeList=headOr blocks 0) (hf : blocks.length<walkFuel heap)
    (hn : ∀ block∈blocks,¬Fits (roundedSize size) block) :
    allocate heap size=some (.error (.fromCode 1),heap) := by
  obtain ⟨more,hmore⟩ : ∃ more,walkFuel heap=blocks.length+(more+1) :=
    ⟨walkFuel heap-blocks.length-1,by omega⟩
  unfold allocate
  rw [hmore,hh,allocateLoop_front hl hL.start_ne hL.sizes hn,allocateLoop,if_pos rfl]

/-- The payload size in use is at least that of a free block's links. -/
theorem le_roundedSize (size : ℕ) : sizeofFreeBlock≤roundedSize size := by
  unfold roundedSize
  split <;> omega

@[simp] theorem removeFromFreeList_storage (heap : SubHeap) (block : ℕ) :
    (removeFromFreeList heap block).storage=heap.storage := by
  simp only [removeFromFreeList]

@[simp] theorem removeFromFreeList_capacity (heap : SubHeap) (block : ℕ) :
    (removeFromFreeList heap block).capacity=heap.capacity := by
  simp only [removeFromFreeList]

@[simp] theorem removeFromFreeList_available (heap : SubHeap) (block : ℕ) :
    (removeFromFreeList heap block).available=heap.available := by
  simp only [removeFromFreeList]

/-- The block the walk stops at is split, removed and turned into an
allocated one; nothing but memory and list head changes. -/
theorem allocateLoop_take {heap : SubHeap} {request fuel cursor : ℕ} (hz : cursor≠0)
    (hc : canary heap.memory cursor=freeCanary) (hs : request≤allocatableSize heap.memory cursor) :
    allocateLoop heap request (fuel+1) cursor=some (.ok (u64 (cursor+sizeofAllocatedBlock)),
      {heap with
        memory := newAllocatedBlock (removeFromFreeList
          {heap with memory := splitIfRequired heap.memory cursor request} cursor).memory
            cursor request,
        freeList := (removeFromFreeList
          {heap with memory := splitIfRequired heap.memory cursor request} cursor).freeList}) := by
  rw [allocateLoop,if_neg hz,if_neg (not_not.mpr hc),if_pos hs]
  simp only [removeFromFreeList_storage,removeFromFreeList_capacity,removeFromFreeList_available]

/-- Headers of the blocks before and after one block are apart from its own. -/
theorem spread_middle {block : Span} {front back : List Span}
    (h : Spread (front++block::back)) :
    ∀ other∈front++back,HeaderApart other.start block.start := by
  obtain ⟨-,hbs,hfb⟩ := List.pairwise_append.mp h
  intro other hm
  rcases List.mem_append.mp hm with hf|hb
  · exact Or.inl (hfb other hf block List.mem_cons_self)
  · exact Or.inr ((List.pairwise_cons.mp hbs).1 other hb)

/-- What a split gives back is spread around the carved block's header. -/
theorem Layout.spread_carved {low high request : ℕ} {block : Span} {front back : List Span}
    (hr : sizeofFreeBlock≤request) (h : Layout low high (front++block::back)) :
    Spread (front++block::(giveBack request block++back)) := by
  have hold := List.pairwise_append.mp h.spread
  have htaken : Layout low high (front++(giveBack request block++back)) := h.take
  have hnew := List.pairwise_append.mp htaken.spread
  refine List.pairwise_append.mpr ⟨hold.1,List.pairwise_cons.mpr ⟨?_,hnew.2.1⟩,?_⟩
  · intro other ho
    rcases List.mem_append.mp ho with hpart|hlater
    · have hw := giveBack_within hpart
      unfold sizeofAllocatedBlock sizeofFreeBlock at *
      omega
    · exact (List.pairwise_cons.mp hold.2.1).1 other hlater
  · intro first hm other ho
    rcases List.mem_cons.mp ho with rfl|ho
    · exact hold.2.2 first hm _ List.mem_cons_self
    · exact hnew.2.2 first hm other ho

/-- The remainder covers nothing that the old block did not. -/
theorem not_covered_taken {request x : ℕ} {block : Span} {front back : List Span}
    (hx : ¬Covered (front++block::back) x) :
    ¬Covered (front++(giveBack request block++back)) x := by
  simp only [covered_append,covered_cons,not_or] at hx ⊢
  refine ⟨hx.1,?_,hx.2.2⟩
  rintro ⟨part,hm,hin⟩
  have hw := giveBack_within hm
  unfold Span.Holds at *
  omega

section Take

variable {low high request : ℕ} {block : Span} {front back : List Span} {memory split : Memory}

/-- A split works inside the block, so all other headers are as before. -/
theorem split_far (hL : Layout low high (front++block::back))
    (h : SplitSpec memory split request block back) :
    ∀ other∈front++back,Unchanged memory split other.start sizeofFreeBlock := by
  obtain ⟨-,hbs,hfb⟩ := List.pairwise_append.mp hL.separated
  intro other hm x hx hy
  have hso := hL.sizes other (by simp only [List.mem_append,List.mem_cons] at hm ⊢; tauto)
  refine h.frame x ?_
  rcases List.mem_append.mp hm with hf|hb
  · have hg := hfb other hf block List.mem_cons_self
    unfold Span.Holds Span.stop at *
    omega
  · have hg := (List.pairwise_cons.mp hbs).1 other hb
    unfold Span.Holds Span.stop at *
    omega

/-- Building the allocated header over the removed block completes the
allocation. -/
theorem newAllocatedBlock_spec {removed : Memory} (hr : sizeofFreeBlock≤request)
    (hlt : request<2^64) (hL : Layout low high (front++block::back))
    (hsplit : SplitSpec memory split request block back)
    (hremove : RemoveSpec split removed front (giveBack request block++back)) :
    AllocateSpec memory (newAllocatedBlock removed block.start request) request block front
      back := by
  have hL' : Layout low high (front++(giveBack request block++back)) := hL.take
  have hapart := spread_middle (hL.spread_carved hr)
  have hprevious : ∀ other∈front++(giveBack request block++back),
      previous (newAllocatedBlock removed block.start request) other.start=
        previous removed other.start := by
    intro other hm
    have ha := hapart other hm
    unfold previous newAllocatedBlock
    simp (disch := first | assumption | omega) only [word_setWord_apart]
  have hold : ∀ other∈front++back,previous split other.start=previous memory other.start :=
    fun other hm => word_congr (split_far hL hsplit other hm) (by omega)
  constructor
  · unfold newAllocatedBlock
    refine (linked_setWord (by omega) (fun other hm => Or.inl (hapart other hm))).mpr ?_
    exact (linked_setWord (by omega) (fun other hm => Or.inl (hapart other hm))).mpr hremove.linked
  · unfold canary newAllocatedBlock
    rw [word_setWord_ne _ _ _ (by omega),word_setWord_self]
    rfl
  · unfold dataSize newAllocatedBlock
    rw [word_setWord_self,u64_of_lt hlt]
  · intro first hm
    rw [hprevious first (List.mem_append_left _ hm),
      hremove.back_eq first (List.mem_append_left _ hm)]
    exact hold first (List.mem_append_left _ hm)
  · intro later rest he
    have hm : later∈giveBack request block++back := he ▸ List.mem_cons_self
    rw [hprevious later (List.mem_append_right _ hm)]
    exact hremove.bypass later rest he
  · intro later hb hm
    rw [hprevious later (List.mem_append_right _ (List.mem_append_right _ hb)),
      hremove.back_eq later (List.mem_append_right _ hm)]
    exact hold later (List.mem_append_right _ hb)
  · intro x hx
    have hxb := header_frame hL.sizes hx block (by simp)
    have hxl := header_frame hL'.sizes (not_covered_taken hx)
    have hxs : ¬block.Holds x := fun hin => hx ⟨block,by simp,hin⟩
    unfold newAllocatedBlock
    rw [setWord_frame _ _ hxb (by omega),setWord_frame _ _ hxb (by omega),hremove.frame x hxl]
    exact hsplit.frame x hxs

/-- Removing the carved block leaves the list with the remainder in its
place, provided the back link of the block is right. -/
theorem removeCarved_spec {heap : SubHeap} (hr : sizeofFreeBlock≤request)
    (hL : Layout low high (front++block::back))
    (hl : Linked memory (front++block::back) 0)
    (hsplit : SplitSpec memory split request block back) (hm : heap.memory=split)
    (hh : heap.freeList=headOr (front++block::back) 0)
    (hp : previous memory block.start=lastOr front 0) :
    RemoveSpec split (removeFromFreeList heap block.start).memory front
        (giveBack request block++back) ∧
      (removeFromFreeList heap block.start).freeList=
        headOr (front++(giveBack request block++back)) 0 := by
  have hL' : Layout low high (front++(giveBack request block++back)) := hL.take
  have hlf := ((linked_append front (block::back) 0).mp hl).1
  have hne : ∀ other∈front++block::(giveBack request block++back),other.start≠0 := by
    intro other ho
    rcases List.mem_append.mp ho with hf|ho
    · exact hL.start_ne other (by simp [hf])
    · rcases List.mem_cons.mp ho with rfl|ho
      · exact hL.start_ne _ (by simp)
      · exact hL'.start_ne other (List.mem_append_right _ ho)
  have hhead : heap.freeList=headOr front block.start := by
    rw [hh,headOr_append]
    rfl
  subst hm
  exact removeFromFreeList_spec (hL.spread_carved hr) hne
    ((linked_congr (fun first hf => split_far hL hsplit first (List.mem_append_left _ hf))).mpr hlf)
    hsplit.next_eq hsplit.linked (hsplit.previous_eq.trans hp) hhead

end Take

/-- A request takes the first block that fits, provided the back link of
that block is right. -/
theorem allocate_some {heap : SubHeap} {low high size : ℕ} {block : Span}
    {front back : List Span} (hL : Layout low high (front++block::back))
    (hl : Linked heap.memory (front++block::back) 0)
    (hh : heap.freeList=headOr (front++block::back) 0)
    (hf : (front++block::back).length<walkFuel heap)
    (hfit : Fits (roundedSize size) block) (hn : ∀ first∈front,¬Fits (roundedSize size) first)
    (hp : previous heap.memory block.start=lastOr front 0) :
    ∃ after, allocate heap size=some (.ok (block.start+sizeofAllocatedBlock),{heap with
        memory := after,
        freeList := headOr (front++(giveBack (roundedSize size) block++back)) 0}) ∧
      AllocateSpec heap.memory after (roundedSize size) block front back := by
  obtain ⟨hlf,hlb⟩ := (linked_append front (block::back) 0).mp hl
  have hstop := hL.stop_le block (by simp)
  have hsb := hL.sizes block (by simp)
  have hzb := hL.start_ne block (by simp)
  have hlt : block.start+sizeofAllocatedBlock<2^64 ∧ roundedSize size<2^64 := by
    unfold Fits Span.stop sizeofAllocatedBlock sizeofFreeBlock at *
    omega
  have hbs := (List.pairwise_append.mp hL.separated).2.1
  have hsplit := splitIfRequired_spec (le_roundedSize size) hfit (Nat.pos_of_ne_zero hzb) hstop
    (fun later hm => ((List.pairwise_cons.mp hbs).1 later hm).le) hlb
  obtain ⟨hremove,hlist⟩ := @removeCarved_spec _ _ _ _ _ _ _ _ {heap with
    memory := splitIfRequired heap.memory block.start (roundedSize size)} (le_roundedSize size)
    hL hl hsplit rfl hh hp
  refine ⟨_,?_,newAllocatedBlock_spec (le_roundedSize size) hlt.2 hL hsplit hremove⟩
  obtain ⟨more,hmore⟩ : ∃ more,walkFuel heap=front.length+(more+1) :=
    ⟨walkFuel heap-front.length-1,by simp only [List.length_append] at hf; omega⟩
  have hhead : heap.freeList=headOr front block.start := by
    rw [hh,headOr_append]
    rfl
  have hwalk : allocateLoop heap (roundedSize size) (front.length+(more+1)) heap.freeList=
      allocateLoop heap (roundedSize size) (more+1) block.start := by
    rw [hhead]
    exact allocateLoop_front hlf (fun first hm => hL.start_ne first (by simp [hm]))
      (fun first hm => hL.sizes first (by simp [hm])) hn
  unfold allocate
  rw [hmore,hwalk,allocateLoop_take hzb hlb.1 ((le_allocatableSize_iff hlb.2.1 hsb).mpr hfit),
    hlist,u64_of_lt hlt.1]

/-- A block lies between two blocks of the list and touches none of them. -/
def Isolated (block : Span) (blocks : List Span) : Prop :=
  (∃ first∈blocks,first.start<block.start) ∧ (∃ later∈blocks,block.start<later.start) ∧
    ∀ other∈blocks,other.stop≠block.start ∧ block.stop≠other.start

instance (block : Span) (blocks : List Span) : Decidable (Isolated block blocks) :=
  inferInstanceAs (Decidable (_ ∧ _ ∧ _))

@[simp] theorem headOr_joinFront (block : Span) (blocks : List Span) (tail : ℕ) :
    headOr (joinFront block blocks) tail=block.start := by
  cases blocks with
  | nil => rfl
  | cons later rest =>
    rw [joinFront]
    split <;> rfl

/-- The two merge attempts of the source agree: asking the block about its
predecessor is asking the predecessor about its successor. -/
theorem coalesceWithPreviousBlock_eq {memory : Memory} {block before : ℕ} (hz : block≠0)
    (hb : before≠0) (hp : previous memory block=before) (hn : next memory before=block) :
    coalesceWithPreviousBlock memory block=coalesceWithNextBlock memory before := by
  have hsame : canCoalescePrevious memory block=canCoalesceNext memory before := by
    have hc : u64 (before+blockSize memory before)=block ↔
        block=u64 (before+blockSize memory before) := eq_comm
    simp only [canCoalescePrevious,canCoalesceNext,hp,hn,ne_eq,hz,hb,not_false_eq_true,
      true_and,hc]
  rw [coalesceWithPreviousBlock,hsame,hp]
  split
  · rfl
  · rename_i hno
    rw [coalesceWithNextBlock,if_neg hno]

/-- Without a predecessor there is nothing to merge with. -/
theorem coalesceWithPreviousBlock_null {memory : Memory} {block : ℕ}
    (hp : previous memory block=0) : coalesceWithPreviousBlock memory block=memory := by
  have hno : canCoalescePrevious memory block=false := by simp [canCoalescePrevious,hp]
  simp only [coalesceWithPreviousBlock,hno,Bool.false_eq_true,if_false]

/-- A block of its own between two parts of a layout; it may touch the
nearest block on either side. -/
structure Placed (low high : ℕ) (block : Span) (front back : List Span) : Prop where
  /-- The other blocks form a layout. -/
  layout : Layout low high (front++back)
  /-- The block can hold a free block's header. -/
  size : sizeofFreeBlock≤block.size
  /-- The block lies in the storage. -/
  inside : block.Inside low high
  /-- The front ends before the block. -/
  before : ∀ first∈front,first.stop≤block.start
  /-- The back starts behind the block. -/
  behind : ∀ later∈back,block.stop≤later.start

namespace Placed

variable {low high : ℕ} {block : Span} {front back : List Span}

/-- Sizes of the block and of all others. -/
theorem sizes (h : Placed low high block front back) :
    ∀ other∈front++block::back,sizeofFreeBlock≤other.size := by
  intro other hm
  rcases List.mem_append.mp hm with hf|hm
  · exact h.layout.sizes other (List.mem_append_left _ hf)
  · rcases List.mem_cons.mp hm with rfl|hb
    · exact h.size
    · exact h.layout.sizes other (List.mem_append_right _ hb)

/-- The block and all others lie in the storage. -/
theorem inside_all (h : Placed low high block front back) :
    ∀ other∈front++block::back,other.Inside low high := by
  intro other hm
  rcases List.mem_append.mp hm with hf|hm
  · exact h.layout.inside other (List.mem_append_left _ hf)
  · rcases List.mem_cons.mp hm with rfl|hb
    · exact h.inside
    · exact h.layout.inside other (List.mem_append_right _ hb)

/-- No address of the list is null. -/
theorem start_ne (h : Placed low high block front back) :
    ∀ other∈front++block::back,other.start≠0 := by
  intro other hm
  have hl := (h.inside_all other hm).1
  have hp := h.layout.low_pos
  omega

/-- The list ends inside the address space. -/
theorem stop_le (h : Placed low high block front back) :
    ∀ other∈front++block::back,other.stop≤2^64 :=
  fun other hm => (h.inside_all other hm).2.trans h.layout.high_le

/-- The list starts inside the address space. -/
theorem start_lt (h : Placed low high block front back) :
    ∀ other∈front++block::back,other.start<2^64 := by
  intro other hm
  have hs := h.stop_le other hm
  have hz := h.sizes other hm
  unfold Span.stop at hs
  unfold sizeofFreeBlock at hz
  omega

/-- Headers do not overlap. -/
theorem spread (h : Placed low high block front back) : Spread (front++block::back) := by
  have hold := List.pairwise_append.mp h.layout.spread
  refine List.pairwise_append.mpr ⟨hold.1,List.pairwise_cons.mpr ⟨?_,hold.2.1⟩,?_⟩
  · intro later hm
    have hb := h.behind later hm
    have hz := h.size
    unfold Span.stop at hb
    omega
  · intro first hf other hm
    rcases List.mem_cons.mp hm with rfl|hb
    · have hb := h.before first hf
      have hz := h.layout.sizes first (List.mem_append_left _ hf)
      unfold Span.stop at hb
      omega
    · exact hold.2.2 first hf other hb

/-- Every later block starts strictly behind the block. -/
theorem start_lt_behind (h : Placed low high block front back) :
    ∀ later∈back,block.start<later.start := by
  intro later hm
  have hb := h.behind later hm
  have hz := h.size
  unfold Span.stop at hb
  unfold sizeofFreeBlock at hz
  omega

/-- Joining with the back keeps that side separated. -/
theorem separated_joinFront (h : Placed low high block front back) :
    Separated (joinFront block back) := by
  refine SpanLists.separated_joinFront (List.pairwise_append.mp h.layout.separated).2.1
    h.behind ?_
  intro later hm
  have hz := h.layout.sizes later (List.mem_append_right _ hm)
  unfold sizeofFreeBlock at hz
  omega

/-- Once the block has absorbed its successor, the last block of the front
is placed before it. -/
theorem join {init : List Span} {last : Span} (h : Placed low high block (init++[last]) back) :
    Placed low high last init (joinFront block back) := by
  have hlayout : Layout low high (init++last::back) := by
    have hl := h.layout
    rwa [List.append_assoc,List.singleton_append] at hl
  have hsep := List.pairwise_append.mp hlayout.separated
  have hlast := h.before last (by simp)
  have hstart : ∀ other∈joinFront block back,(fun other : Span => block.start≤other.start ∧
      sizeofFreeBlock≤other.size ∧ other.Inside low high) other := by
    refine forall_joinFront ?_ ⟨le_rfl,h.size,h.inside⟩ ?_
    · intro first second hf hs ht
      unfold Span.Inside Span.stop at *
      dsimp only at *
      omega
    · intro later hm
      exact ⟨(h.start_lt_behind later hm).le,h.layout.sizes later (List.mem_append_right _ hm),
        h.layout.inside later (List.mem_append_right _ hm)⟩
  refine ⟨⟨h.layout.low_pos,h.layout.high_le,?_,?_,?_⟩,?_,?_,?_,?_⟩
  · refine List.pairwise_append.mpr ⟨hsep.1,h.separated_joinFront,?_⟩
    intro first hf other hm
    have hg := hsep.2.2 first hf last List.mem_cons_self
    have ho := (hstart other hm).1
    unfold Span.stop at *
    omega
  · intro other hm
    rcases List.mem_append.mp hm with hf|hm
    · exact hlayout.sizes other (List.mem_append_left _ hf)
    · exact (hstart other hm).2.1
  · intro other hm
    rcases List.mem_append.mp hm with hf|hm
    · exact hlayout.inside other (List.mem_append_left _ hf)
    · exact (hstart other hm).2.2
  · exact hlayout.sizes last (by simp)
  · exact hlayout.inside last (by simp)
  · exact fun first hf => (hsep.2.2 first hf last List.mem_cons_self).le
  · exact fun other hm => hlast.trans (hstart other hm).1

/-- A release at the block's place joins it to both sides. -/
theorem release_eq (h : Placed low high block front back) :
    release block (front++back)=front.foldr joinFront (joinFront block back) := by
  refine release_append ?_ h.start_lt_behind
  intro first hf
  have hb := h.before first hf
  unfold Span.stop at hb
  omega

/-- Behind a nonempty front, only its last block can be joined. -/
theorem release_last {init : List Span} {last : Span}
    (h : Placed low high block (init++[last]) back) :
    release block ((init++[last])++back)=init++joinFront last (joinFront block back) := by
  rw [h.release_eq,List.foldr_append,List.foldr_cons,List.foldr_nil]
  have hj := h.join
  refine foldr_joinFront (List.pairwise_append.mpr
    ⟨(List.pairwise_append.mp hj.layout.separated).1,hj.separated_joinFront,?_⟩)
  intro first hf other hm
  have hsep := List.pairwise_append.mp h.layout.separated
  have hlast : first.stop<last.start :=
    (List.pairwise_append.mp hsep.1).2.2 first hf last List.mem_cons_self
  have hstart : ∀ other∈joinFront last (joinFront block back),
      (fun other : Span => last.start≤other.start) other := by
    refine forall_joinFront (fun _ _ ha _ _ => ha) le_rfl ?_
    intro other hm
    exact (Nat.le_add_right _ _).trans (hj.behind other hm)
  exact hlast.trans_le (hstart other hm)

end Placed

section Merge

variable {low high before : ℕ} {block : Span} {front back : List Span} {memory after : Memory}

/-- An operation on the headers of a later list leaves those of an earlier
one alone. -/
theorem unchanged_front (hs : Spread (front++back))
    (hframe : ∀ x, (∀ other∈back,x<other.start ∨ other.start+sizeofFreeBlock≤x) →
      after x=memory x) :
    ∀ first∈front,Unchanged memory after first.start sizeofFreeBlock := by
  intro first hf x hx hy
  refine hframe x (fun other hm => Or.inl ?_)
  have hg := (List.pairwise_append.mp hs).2.2 first hf other hm
  omega

/-- The back links of a joined list, seen from its head. -/
theorem backLinked_joinFront :
    BackLinked memory (joinFront block back) before ↔ previous memory block.start=before ∧
      BackLinked memory (joinFront block back).tail block.start := by
  cases back with
  | nil => exact Iff.rfl
  | cons later rest =>
    rw [joinFront]
    split <;> exact Iff.rfl

/-- The block touches the first block of the list. -/
def TouchesHead (block : Span) : List Span→Prop
  | [] => False
  | later::_ => block.stop=later.start

/-- Back links behind the joined head: a merge repairs the first of them,
otherwise it is the one found before. -/
theorem coalesce_back (h : CoalesceSpec memory after block back)
    (hb : BackLinked memory back before) :
    (TouchesHead block back → BackLinked after (joinFront block back).tail block.start) ∧
      ∃ found, BackLinked after (joinFront block back).tail found ∧
        (before=block.start → found=block.start) := by
  cases back with
  | nil => exact ⟨fun ht => absurd ht (fun hf => hf),before,trivial,fun he => he⟩
  | cons later rest =>
    by_cases ht : block.stop=later.start
    · have hj := h.back_joined later rest later.start rfl ht hb.2
      have hl : (joinFront block (later::rest)).tail=rest := by
        rw [joinFront,if_pos ht]
        rfl
      rw [hl]
      exact ⟨fun _ => hj,block.start,hj,fun _ => rfl⟩
    · have hkept : after=memory := h.kept (by
        rintro later' rest' he
        cases he
        exact ht)
      have hl : (joinFront block (later::rest)).tail=later::rest := by
        rw [joinFront,if_neg ht]
        rfl
      rw [hl,hkept]
      exact ⟨fun htouch => absurd htouch ht,before,hb,fun he => he⟩

/-- `coalesce_with_next_block` of a placed block, with the list before it. -/
theorem coalesce_placed (hP : Placed low high block front back)
    (h : Linked memory (front++block::back) 0) :
    CoalesceSpec memory (coalesceWithNextBlock memory block.start) block back ∧
      Linked (coalesceWithNextBlock memory block.start) (front++joinFront block back) 0 ∧
      ∀ first∈front,Unchanged memory (coalesceWithNextBlock memory block.start) first.start
        sizeofFreeBlock := by
  obtain ⟨hlf,hlb⟩ := (linked_append front (block::back) 0).mp h
  have hspread := List.pairwise_append.mp hP.spread
  have hspec := coalesceWithNextBlock_spec hspread.2.1
    (fun other hm => hP.start_ne other (List.mem_append_right _ hm))
    (fun other hm => hP.stop_le other (List.mem_append_right _ hm))
    (fun other hm => hP.sizes other (List.mem_append_right _ hm)) hP.behind hlb
  have hfar := unchanged_front hP.spread hspec.frame
  refine ⟨hspec,(linked_append _ _ 0).mpr ⟨?_,hspec.linked⟩,hfar⟩
  rw [headOr_joinFront]
  exact (linked_congr hfar).mpr hlf

/-- Memory after both merge attempts on a placed block. -/
structure MergeSpec (memory after : Memory) (block : Span) (front back : List Span) : Prop where
  /-- The list with the block released into it. -/
  linked : Linked after (release block (front++back)) 0
  /-- Back links are complete when they were complete around the block, or
  when a merge repaired the one behind it. -/
  backLinked : ∀ before, BackLinked memory front 0 → BackLinked memory back before →
    (before=block.start ∨ ∃ other∈front++back,
      other.stop=block.start ∨ block.stop=other.start) →
    BackLinked after (release block (front++back)) 0
  /-- A block that touches nothing is left as it is. -/
  kept : (∀ other∈front++back,other.stop≠block.start ∧ block.stop≠other.start) → after=memory
  /-- Only headers of the list are written. -/
  frame : ∀ x, (∀ other∈front++block::back,x<other.start ∨ other.start+sizeofFreeBlock≤x) →
    after x=memory x

/-- A block behind the head cannot be touched from before it. -/
theorem touchesHead_of_touch (hP : Placed low high block front back)
    (h : ∃ other∈back,other.stop=block.start ∨ block.stop=other.start) :
    TouchesHead block back := by
  obtain ⟨other,hm,ht⟩ := h
  have hb := hP.behind other hm
  have hz := hP.size
  cases back with
  | nil => cases hm
  | cons later rest =>
    have hl := hP.behind later List.mem_cons_self
    change block.stop=later.start
    rcases List.mem_cons.mp hm with rfl|hr
    · unfold Span.stop sizeofFreeBlock at *
      omega
    · have hsep := (List.pairwise_append.mp hP.layout.separated).2.1
      have hg := (List.pairwise_cons.mp hsep).1 other hr
      unfold Span.stop sizeofFreeBlock at *
      omega

/-- A block of the front other than its last one cannot touch. -/
theorem touches_last {init : List Span} {last : Span}
    (hP : Placed low high block (init++[last]) back)
    (h : ∃ other∈init++[last],other.stop=block.start ∨ block.stop=other.start) :
    last.stop=block.start := by
  obtain ⟨other,hm,ht⟩ := h
  have hb := hP.before other hm
  have hlast := hP.before last (by simp)
  have hz := hP.size
  have hzo := hP.layout.sizes other (List.mem_append_left _ hm)
  rcases List.mem_append.mp hm with hi|hl
  · have hsep := (List.pairwise_append.mp hP.layout.separated).1
    have hg := (List.pairwise_append.mp hsep).2.2 other hi last List.mem_cons_self
    unfold Span.stop sizeofFreeBlock at *
    omega
  · cases List.mem_singleton.mp hl
    unfold Span.stop sizeofFreeBlock at *
    omega

/-- Both merge attempts on a block at the head of the list: only the one
with its successor can succeed. -/
theorem merge_head (hP : Placed low high block [] back) (hl : Linked memory (block::back) 0)
    (hp : previous memory block.start=0) :
    MergeSpec memory (coalesceWithPreviousBlock (coalesceWithNextBlock memory block.start)
      block.start) block [] back := by
  obtain ⟨hspec,hlinked,-⟩ := coalesce_placed hP hl
  have hrelease : release block ([]++back)=joinFront block back := hP.release_eq
  rw [coalesceWithPreviousBlock_null (hspec.previous_eq.trans hp)]
  refine ⟨?_,?_,?_,hspec.frame⟩
  · rw [hrelease]
    exact hlinked
  · intro before _ hb hor
    rw [hrelease]
    refine backLinked_joinFront.mpr ⟨hspec.previous_eq.trans hp,?_⟩
    obtain ⟨htouch,found,hfound,hsame⟩ := coalesce_back hspec hb
    rcases hor with he|ht
    · rw [hsame he] at hfound
      exact hfound
    · exact htouch (touchesHead_of_touch hP ht)
  · intro hno
    refine hspec.kept ?_
    rintro later rest rfl
    exact (hno later (by simp)).2

/-- Back links behind the last block of the front, after both merge attempts. -/
theorem coalesce_back_twice {init : List Span} {last : Span} {mid : Memory}
    (hP : Placed low high block (init++[last]) back) (hspec : CoalesceSpec memory mid block back)
    (hspec' : CoalesceSpec mid after last (joinFront block back))
    (hpm : previous mid block.start=last.start) (hb : BackLinked memory back before)
    (hor : before=block.start ∨ ∃ other∈(init++[last])++back,
      other.stop=block.start ∨ block.stop=other.start) :
    BackLinked after (joinFront last (joinFront block back)).tail last.start := by
  obtain ⟨htouch,found,hfound,hsame⟩ := coalesce_back hspec hb
  by_cases hlt : last.stop=block.start
  · rcases hj : joinFront block back with _|⟨head,rest⟩
    · trivial
    · have hhead : last.stop=head.start := by
        rw [hlt,← headOr_joinFront block back 0,hj]
        rfl
      have hrest : BackLinked mid rest found := by
        rw [hj] at hfound
        exact hfound
      rw [joinFront,if_pos hhead]
      exact hspec'.back_joined head rest found hj hhead hrest
  · have hstrong : BackLinked mid (joinFront block back).tail block.start := by
      rcases hor with he|⟨other,hm,ht⟩
      · rw [hsame he] at hfound
        exact hfound
      · rcases List.mem_append.mp hm with hi|hk
        · exact absurd (touches_last hP ⟨other,hi,ht⟩) hlt
        · exact htouch (touchesHead_of_touch hP ⟨other,hk,ht⟩)
    have hwhole : BackLinked mid (joinFront block back) last.start :=
      backLinked_joinFront.mpr ⟨hpm,hstrong⟩
    obtain ⟨-,found',hfound',hsame'⟩ := coalesce_back hspec' hwhole
    rw [hsame' rfl] at hfound'
    exact hfound'

/-- Both merge attempts on a block behind the first one. -/
theorem merge_behind {init : List Span} {last : Span}
    (hP : Placed low high block (init++[last]) back)
    (hl : Linked memory ((init++[last])++block::back) 0)
    (hp : previous memory block.start=last.start) :
    MergeSpec memory (coalesceWithPreviousBlock (coalesceWithNextBlock memory block.start)
      block.start) block (init++[last]) back := by
  obtain ⟨hspec,hlinked,hfar⟩ := coalesce_placed hP hl
  set mid := coalesceWithNextBlock memory block.start
  rw [List.append_assoc,List.singleton_append] at hlinked
  have hlast : Linked mid (last::joinFront block back) 0 :=
    ((linked_append init _ 0).mp hlinked).2
  have hnext : next mid last.start=block.start := by
    rw [← headOr_joinFront block back 0]
    exact hlast.2.2.1
  have hpm : previous mid block.start=last.start := hspec.previous_eq.trans hp
  obtain ⟨hspec',hlinked',hfar'⟩ := coalesce_placed hP.join hlinked
  rw [coalesceWithPreviousBlock_eq (hP.start_ne block (by simp)) (hP.start_ne last (by simp))
    hpm hnext]
  set after := coalesceWithNextBlock mid last.start
  have hfront : ∀ first∈init++[last],previous after first.start=previous memory first.start := by
    intro first hm
    have hmid : previous mid first.start=previous memory first.start :=
      word_congr (hfar first hm) (by omega)
    rw [← hmid]
    rcases List.mem_append.mp hm with hi|hs
    · exact word_congr (hfar' first hi) (by omega)
    · cases List.mem_singleton.mp hs
      exact hspec'.previous_eq
  refine ⟨?_,?_,?_,?_⟩
  · rw [hP.release_last]
    exact hlinked'
  · intro before hf hb hor
    rw [hP.release_last]
    have hfront' : BackLinked after (init++[last]) 0 := (backLinked_congr hfront).mpr hf
    obtain ⟨hinit,hprev,-⟩ := (backLinked_append init [last] 0).mp hfront'
    exact (backLinked_append init _ 0).mpr ⟨hinit,backLinked_joinFront.mpr
      ⟨hprev,coalesce_back_twice hP hspec hspec' hpm hb hor⟩⟩
  · intro hno
    have hmid : mid=memory := hspec.kept (by
      rintro later rest rfl
      exact (hno later (by simp)).2)
    rw [← hmid]
    refine hspec'.kept ?_
    intro later rest he hstop
    have hstart : later.start=block.start := by
      rw [← headOr_joinFront block back 0,he]
      rfl
    exact (hno last (by simp)).1 (hstop.trans hstart)
  · intro x hx
    have hmid : mid x=memory x :=
      hspec.frame x (fun other hm => hx other (List.mem_append_right _ hm))
    rw [← hmid]
    refine hspec'.frame x ?_
    refine List.forall_mem_cons.mpr ⟨hx last (by simp),?_⟩
    have hout : ∀ other∈joinFront block back,(fun other : Span =>
        x<other.start ∨ other.start+sizeofFreeBlock≤x) other :=
      forall_joinFront (fun _ _ ha _ _ => ha) (hx block (by simp))
        (fun later hm => hx later (by simp [hm]))
    exact hout

/-- Both merge attempts on a block anywhere in the list. -/
theorem merge_spec (hP : Placed low high block front back)
    (hl : Linked memory (front++block::back) 0)
    (hp : previous memory block.start=lastOr front 0) :
    MergeSpec memory (coalesceWithPreviousBlock (coalesceWithNextBlock memory block.start)
      block.start) block front back := by
  rcases List.eq_nil_or_concat' front with rfl|⟨init,last,rfl⟩
  · exact merge_head hP hl hp
  · refine merge_behind hP hl ?_
    rw [hp,lastOr_append]
    rfl

end Merge

section Free

variable {low high : ℕ} {block : Span} {front back : List Span}

/-- The header of a freshly built free block, and the bytes it occupies. -/
theorem newFreeBlock_spec (memory : Memory) {start size : ℕ} (hs : size<2^64) :
    canary (newFreeBlock memory start size) start=freeCanary ∧
      blockSize (newFreeBlock memory start size) start=size ∧
      previous (newFreeBlock memory start size) start=0 ∧
      next (newFreeBlock memory start size) start=0 ∧
      ∀ x, (x<start ∨ start+sizeofFreeBlock≤x) → newFreeBlock memory start size x=memory x := by
  unfold canary blockSize previous next newFreeBlock
  refine ⟨?_,?_,?_,?_,?_⟩
  · simp (disch := omega) only [word_setWord_ne,word_setWord_self]
    rfl
  · simp (disch := omega) only [word_setWord_ne,word_setWord_self,u64_of_lt]
  · simp (disch := omega) only [word_setWord_ne,word_setWord_self,u64_of_lt]
  · simp (disch := omega) only [word_setWord_self,u64_of_lt]
  · intro x hx
    unfold sizeofFreeBlock at hx
    simp (disch := omega) only [setWord_frame]

/-- Memory after a block was freed between `front` and `back`. -/
structure FreeSpec (memory after : Memory) (block : Span) (front back : List Span) : Prop where
  /-- The forward list, with the block released into it. -/
  linked : Linked after (release block (front++back)) 0
  /-- Complete back links stay complete unless the block is isolated. -/
  backLinked : BackLinked memory (front++back) 0 → ¬Isolated block (front++back) →
    BackLinked after (release block (front++back)) 0
  /-- Behind an isolated block a back link is left stale. -/
  stale : BackLinked memory (front++back) 0 → Isolated block (front++back) →
    ¬BackLinked after (release block (front++back)) 0
  /-- Only bytes of the old free list and of the block are written. -/
  frame : ∀ x, ¬Covered (front++back) x → ¬block.Holds x → after x=memory x

/-- An isolated block is inserted without joining anything. -/
theorem release_isolated (hP : Placed low high block front back)
    (h : Isolated block (front++back)) : release block (front++back)=front++block::back := by
  have hno := h.2.2
  have hback : joinFront block back=block::back := by
    cases back with
    | nil => rfl
    | cons later rest => rw [joinFront,if_neg (hno later (by simp)).2]
  rw [hP.release_eq,hback]
  refine foldr_joinFront (List.pairwise_append.mpr ⟨?_,List.pairwise_cons.mpr ⟨?_,?_⟩,?_⟩)
  · exact (List.pairwise_append.mp hP.layout.separated).1
  · intro later hm
    exact lt_of_le_of_ne (hP.behind later hm) (hno later (by simp [hm])).2
  · exact (List.pairwise_append.mp hP.layout.separated).2.1
  · intro first hf other hm
    rcases List.mem_cons.mp hm with rfl|hb
    · exact lt_of_le_of_ne (hP.before first hf) (hno first (by simp [hf])).1
    · exact (List.pairwise_append.mp hP.layout.separated).2.2 first hf other hb

/-- A block that is not isolated is at one end of the list or touches a
neighbour. -/
theorem end_or_touch (hP : Placed low high block front back)
    (h : ¬Isolated block (front++back)) :
    front=[] ∨ back=[] ∨ ∃ other∈front++back,other.stop=block.start ∨ block.stop=other.start := by
  by_contra hc
  rw [not_or,not_or] at hc
  obtain ⟨hf,hb,ht⟩ := hc
  obtain ⟨first,hfm⟩ := List.exists_mem_of_ne_nil front hf
  obtain ⟨later,hlm⟩ := List.exists_mem_of_ne_nil back hb
  refine h ⟨⟨first,by simp [hfm],?_⟩,⟨later,by simp [hlm],hP.start_lt_behind later hlm⟩,?_⟩
  · have hstop := hP.before first hfm
    have hz := hP.layout.sizes first (by simp [hfm])
    unfold Span.stop sizeofFreeBlock at *
    omega
  · intro other hm
    exact ⟨fun he => ht ⟨other,hm,Or.inl he⟩,fun he => ht ⟨other,hm,Or.inr he⟩⟩

/-- An isolated block has blocks on both sides. -/
theorem isolated_sides (hP : Placed low high block front back)
    (h : Isolated block (front++back)) : front≠[] ∧ back≠[] := by
  obtain ⟨⟨first,hfm,hfl⟩,⟨later,hlm,hll⟩,-⟩ := h
  constructor
  · rintro rfl
    have hg := hP.start_lt_behind first hfm
    omega
  · rintro rfl
    rw [List.append_nil] at hlm
    have hg := hP.before later hlm
    unfold Span.stop at hg
    omega

/-- Inserting and merging a freshly built block is a release. -/
theorem insertMerge_spec {memory built inserted : Memory} (hP : Placed low high block front back)
    (hbuilt : ∀ x, (x<block.start ∨ block.start+sizeofFreeBlock≤x) → built x=memory x)
    (h : InsertSpec built inserted block front back) :
    FreeSpec memory (coalesceWithPreviousBlock (coalesceWithNextBlock inserted block.start)
      block.start) block front back := by
  have hmerge := merge_spec hP h.linked h.previous_eq
  have hold : ∀ other∈front++back,previous built other.start=previous memory other.start := by
    intro other hm
    refine word_congr (fun x hx hy => hbuilt x ?_) (by omega)
    have ha := spread_middle hP.spread other hm
    unfold HeaderApart at ha
    omega
  have hfront : ∀ first∈front,previous inserted first.start=previous memory first.start :=
    fun first hm => (h.back_front first hm).trans (hold first (List.mem_append_left _ hm))
  refine ⟨hmerge.linked,?_,?_,?_⟩
  · intro hb hni
    obtain ⟨hbf,hbb⟩ := (backLinked_append front back 0).mp hb
    have hbf' : BackLinked inserted front 0 := (backLinked_congr hfront).mpr hbf
    by_cases hne : front=[]
    · -- at the head the old head was made to point back
      subst hne
      refine hmerge.backLinked block.start hbf' ?_ (Or.inl rfl)
      cases back with
      | nil => trivial
      | cons later rest =>
        refine ⟨h.back_head rfl later rest rfl,(backLinked_congr ?_).mpr hbb.2⟩
        intro other hm
        exact (h.back_tail other hm).trans (hold other (by simp [hm]))
    · rcases end_or_touch hP hni with hnil|rfl|htouch
      · exact absurd hnil hne
      · exact hmerge.backLinked block.start hbf' trivial (Or.inl rfl)
      · refine hmerge.backLinked _ hbf' ((backLinked_congr ?_).mpr hbb) (Or.inr htouch)
        intro later hm
        exact (h.back_stale hne later hm).trans (hold later (List.mem_append_right _ hm))
  · intro hb hi hafter
    obtain ⟨hfne,hbne⟩ := isolated_sides hP hi
    rw [hmerge.kept hi.2.2,release_isolated hP hi] at hafter
    obtain ⟨later,rest,rfl⟩ := List.exists_cons_of_ne_nil hbne
    have hstored : previous inserted later.start=lastOr front 0 := by
      rw [h.back_stale hfne later List.mem_cons_self,
        hold later (List.mem_append_right _ List.mem_cons_self)]
      exact ((backLinked_append front (later::rest) 0).mp hb).2.1
    have hlinked : previous inserted later.start=block.start :=
      ((backLinked_append front (block::later::rest) 0).mp hafter).2.2.1
    obtain ⟨last,hm,he⟩ := lastOr_mem 0 hfne
    have hlt := hP.before last hm
    have hz := hP.layout.sizes last (List.mem_append_left _ hm)
    unfold Span.stop sizeofFreeBlock at *
    omega
  · intro x hx hxb
    have hout := header_frame hP.sizes (x:=x) (by
      simp only [covered_append,covered_cons,not_or] at hx ⊢
      exact ⟨hx.1,hxb,hx.2⟩)
    rw [hmerge.frame x hout,h.frame x hout]
    exact hbuilt x (hout block (by simp))

/-- `free` of a live block releases it into the list. -/
theorem free_spec {heap : SubHeap} (hP : Placed low high block front back)
    (hl : Linked heap.memory (front++back) 0) (hh : heap.freeList=headOr (front++back) 0)
    (hf : (front++back).length+1<walkFuel heap)
    (hc : canary heap.memory block.start=allocatedCanary)
    (hd : dataSize heap.memory block.start+sizeofAllocatedBlock=block.size) :
    ∃ after, free heap (block.start+sizeofAllocatedBlock)=some (.ok (),{heap with
        memory := after,freeList := headOr (release block (front++back)) 0}) ∧
      FreeSpec heap.memory after block front back := by
  have hstop := hP.stop_le block (by simp)
  have hne := hP.start_ne block (by simp)
  have hsize := hP.size
  have hlt : block.size<2^64 := by
    unfold Span.stop at hstop
    omega
  obtain ⟨hbc,hbs,hbp,hbn,hframe⟩ := @newFreeBlock_spec heap.memory block.start _ hlt
  set built := newFreeBlock heap.memory block.start block.size with hbuilt
  have hlb : Linked built (front++back) 0 := by
    refine (linked_congr ?_).mpr hl
    intro other hm x hx hy
    refine hframe x ?_
    have ha := spread_middle hP.spread other hm
    unfold HeaderApart at ha
    omega
  obtain ⟨inserted,hins,hspec⟩ := @insertIntoFreeList_spec {heap with memory := built} block front
    back hP.spread hP.start_ne hP.start_lt hbc hbs hbp hbn hlb hh
    (by rw [List.length_append] at hf; exact hf)
  have hstart : u64Sub (block.start+sizeofAllocatedBlock) sizeofAllocatedBlock=block.start := by
    have hb : block.start+sizeofAllocatedBlock<2^64 := by
      unfold Span.stop sizeofAllocatedBlock sizeofFreeBlock at *
      omega
    rw [u64Sub_of_le (Nat.le_add_left _ _) hb,Nat.add_sub_cancel]
  have hhead : headOr (release block (front++back)) 0=headOr (front++block::back) 0 := by
    rcases List.eq_nil_or_concat' front with rfl|⟨init,last,rfl⟩
    · rw [hP.release_eq,List.foldr_nil,headOr_joinFront]
      rfl
    · rw [hP.release_last,headOr_append,headOr_joinFront,List.append_assoc,headOr_append]
      rfl
  refine ⟨_,?_,insertMerge_spec hP hframe hspec⟩
  have hnull : ¬block.start+sizeofAllocatedBlock=0 := by omega
  rw [free,if_neg hnull]
  dsimp only
  rw [hstart,if_neg (not_not.mpr hc),hd,u64_of_lt hlt,← hbuilt,hins,hhead]
  rfl

end Free

end WorkbenchOS.KmallocOperations
