import WorkbenchOS.KmallocDoubleFree

/-!
# Both directions of the free list

The list operations one by one, on free lists whose links agree in both
directions. Insertion keeps the two directions consistent at either end of
the list and nowhere else, a split gives the left block sixteen bytes too
many whenever it splits, and the two merges of `free` rejoin everything that
touches the freed block.
-/

namespace WorkbenchOS.KmallocLinks

open ByteMemory LibStd SpanLists KmallocSubHeap KmallocFreeList KmallocOperations KmallocDoubleFree

/-- The bytes of a block that hold its header. -/
def header (block : Span) : Span := ⟨block.start,sizeofFreeBlock⟩

/-- The blocks are the free list of the sub-heap: strictly ascending, with
headers in the storage that do not overlap, and linked in both directions. -/
structure FreeList (heap : SubHeap) (blocks : List Span) : Prop where
  /-- The storage starts behind the null address. -/
  storage_pos : 0<heap.storage
  /-- The storage ends inside the address space. -/
  stop_le : heap.storage+heap.capacity≤2^64
  /-- The list head. -/
  head_eq : heap.freeList=headOr blocks 0
  /-- Canaries, sizes and forward links. -/
  linked : Linked heap.memory blocks 0
  /-- Each back link leads to the block whose forward link leads here. -/
  backLinked : BackLinked heap.memory blocks 0
  /-- The blocks are in address order. -/
  spread : Spread blocks
  /-- Every header lies in the storage. -/
  inside : ∀ block∈blocks,(header block).Inside heap.storage (heap.storage+heap.capacity)

/-- A free block that is on no list: its links are null and its header is
not that of a block of the list. -/
structure Detached (heap : SubHeap) (blocks : List Span) (block : Span) : Prop where
  /-- The block carries the canary of free blocks. -/
  canary_eq : canary heap.memory block.start=freeCanary
  /-- The block's size. -/
  size_eq : blockSize heap.memory block.start=block.size
  /-- No predecessor. -/
  previous_eq : previous heap.memory block.start=0
  /-- No successor. -/
  next_eq : next heap.memory block.start=0
  /-- The header lies in the storage. -/
  inside : (header block).Inside heap.storage (heap.storage+heap.capacity)
  /-- The header overlaps no other one. -/
  apart : ∀ other∈blocks,HeaderApart block.start other.start

/-- A spread list is one of ascending headers. -/
theorem spread_iff_ascending {blocks : List Span} :
    Spread blocks ↔ Ascending (blocks.map header) := by
  unfold Spread Ascending
  rw [List.pairwise_map]
  rfl

namespace FreeList

variable {heap : SubHeap} {blocks : List Span}

/-- No block is at the null address. -/
theorem start_ne (h : FreeList heap blocks) : ∀ block∈blocks,block.start≠0 := by
  intro block hm
  have hl : heap.storage≤ block.start := (h.inside block hm).1
  have hp := h.storage_pos
  omega

/-- The forward links leave room for no other list. -/
theorem eq_of_linked {others : List Span} (h : FreeList heap blocks)
    (hl : Linked heap.memory others 0) (hz : ∀ other∈others,other.start≠0)
    (hh : heap.freeList=headOr others 0) : others=blocks := by
  have ho := hl.walk_eq hz (Nat.le_add_left _ blocks.length)
  have hb := h.linked.walk_eq h.start_ne (Nat.le_add_right _ others.length)
  rw [← hh,h.head_eq] at ho
  exact ho.symm.trans hb

end FreeList

section Insertion

variable {heap : SubHeap} {blocks front back : List Span} {block : Span} {memory after : Memory}

/-- A detached block has its place between two parts of the list. -/
theorem exists_place (h : FreeList heap blocks) (hd : Detached heap blocks block) :
    ∃ front back, blocks=front++back ∧ Spread (front++block::back) := by
  have hheaders : ∀ other∈blocks.map header,(header block).Apart other := by
    intro other hm
    obtain ⟨old,ho,rfl⟩ := List.mem_map.mp hm
    exact hd.apart old ho
  obtain ⟨before,behind,he,hf,hb⟩ :=
    exists_split_around (spread_iff_ascending.mp h.spread) hheaders
  obtain ⟨front,back,rfl,rfl,rfl⟩ := List.map_eq_append_iff.mp he
  obtain ⟨hfs,hbs,hfb⟩ := List.pairwise_append.mp h.spread
  refine ⟨front,back,rfl,List.pairwise_append.mpr ⟨hfs,List.pairwise_cons.mpr ⟨?_,hbs⟩,?_⟩⟩
  · exact fun later hm => hb (header later) (List.mem_map_of_mem hm)
  · intro first hm later hl
    rcases List.mem_cons.mp hl with rfl|hl
    · exact hf (header first) (List.mem_map_of_mem hm)
    · exact hfb first hm later hl

/-- With the block in its place, all headers lie in the storage. -/
theorem inside_inserted (h : FreeList heap (front++back)) (hd : Detached heap (front++back) block) :
    ∀ other∈front++block::back,
      (header other).Inside heap.storage (heap.storage+heap.capacity) := by
  intro other hm
  rcases List.mem_append.mp hm with hf|hm
  · exact h.inside other (List.mem_append_left _ hf)
  · rcases List.mem_cons.mp hm with rfl|hb
    · exact hd.inside
    · exact h.inside other (List.mem_append_right _ hb)

/-- `insert_into_free_list` of a detached block returns, with the block in
its place of the forward list. -/
theorem insert_placed (h : FreeList heap (front++back)) (hd : Detached heap (front++back) block)
    (hs : Spread (front++block::back)) :
    ∃ after, insertIntoFreeList heap block.start=some {heap with
        memory := after,freeList := headOr (front++block::back) 0} ∧
      InsertSpec heap.memory after block front back := by
  have hin := inside_inserted h hd
  have hp := h.storage_pos
  have hle := h.stop_le
  have hbounds : ∀ other∈front++block::back,other.start≠0 ∧ other.start<2^64 := by
    intro other hm
    have ho := hin other hm
    unfold Span.Inside Span.stop header sizeofFreeBlock at ho
    dsimp only at ho
    omega
  refine insertIntoFreeList_spec hs (fun other hm => (hbounds other hm).1)
    (fun other hm => (hbounds other hm).2) hd.canary_eq hd.size_eq hd.previous_eq hd.next_eq
    h.linked h.head_eq ?_
  -- all headers fit in the storage, so there are fewer than bytes
  have hcount := length_mul_le (spread_iff_ascending.mp hs) (Nat.le_add_right _ heap.capacity)
    (fun other hm => by
      obtain ⟨old,ho,rfl⟩ := List.mem_map.mp hm
      exact hin old ho)
    (fun other hm => by
      obtain ⟨old,-,rfl⟩ := List.mem_map.mp hm
      exact le_rfl : ∀ other∈(front++block::back).map header,sizeofFreeBlock≤other.size)
  simp only [List.length_map,List.length_append,List.length_cons] at hcount
  unfold sizeofFreeBlock at hcount
  unfold walkFuel
  omega

/-- An insertion completes the back links exactly at an end of the list: in
the middle the old successor still points at its old predecessor. -/
theorem backLinked_inserted_iff (h : InsertSpec memory after block front back)
    (hs : Spread (front++block::back)) (hb : BackLinked memory (front++back) 0) :
    BackLinked after (front++block::back) 0 ↔ front=[] ∨ back=[] := by
  obtain ⟨hbf,hbb⟩ := (backLinked_append front back 0).mp hb
  have hfront : BackLinked after front 0 := (backLinked_congr h.back_front).mpr hbf
  rw [backLinked_append,and_iff_right hfront]
  have htail := h.back_tail
  cases back with
  | nil => exact iff_of_true ⟨h.previous_eq,trivial⟩ (Or.inr rfl)
  | cons later rest =>
    by_cases hnil : front=[]
    · refine iff_of_true ⟨h.previous_eq,h.back_head hnil later rest rfl,?_⟩ (Or.inl hnil)
      exact (backLinked_congr htail).mpr hbb.2
    · refine iff_of_false ?_ (by simp [hnil])
      rintro ⟨-,hlater,-⟩
      have hstale : previous after later.start=lastOr front 0 :=
        (h.back_stale hnil later List.mem_cons_self).trans hbb.1
      obtain ⟨last,hm,he⟩ := lastOr_mem 0 hnil
      have hg := (List.pairwise_append.mp hs).2.2 last hm block List.mem_cons_self
      unfold sizeofFreeBlock at hg
      omega

/-- The block's place is an end of the list exactly when no two of its
blocks are on different sides. -/
theorem place_at_end_iff (hs : Spread (front++block::back)) :
    front=[] ∨ back=[] ↔ (∀ other∈front++back,block.start<other.start) ∨
      ∀ other∈front++back,other.start<block.start := by
  obtain ⟨-,hbs,hfb⟩ := List.pairwise_append.mp hs
  have hfront : ∀ first∈front,first.start<block.start := by
    intro first hm
    have hg := hfb first hm block List.mem_cons_self
    unfold sizeofFreeBlock at hg
    omega
  have hback : ∀ later∈back,block.start<later.start := by
    intro later hm
    have hg := (List.pairwise_cons.mp hbs).1 later hm
    unfold sizeofFreeBlock at hg
    omega
  constructor
  · rintro (rfl|rfl)
    · exact Or.inl hback
    · rw [List.append_nil]
      exact Or.inr hfront
  · rintro (hall|hall)
    · refine Or.inl (List.eq_nil_iff_forall_not_mem.mpr (fun first hm => ?_))
      exact absurd (hall first (List.mem_append_left _ hm)) (hfront first hm).asymm
    · refine Or.inr (List.eq_nil_iff_forall_not_mem.mpr (fun later hm => ?_))
      exact absurd (hall later (List.mem_append_right _ hm)) (hback later hm).asymm

/-- The insertion leaves a doubly linked list of all the blocks exactly when
the place it found is an end of the list. -/
theorem insert_keeps_iff_end (h : FreeList heap (front++back))
    (hd : Detached heap (front++back) block) (hs : Spread (front++block::back)) :
    (∃ inserted blocks', insertIntoFreeList heap block.start=some inserted ∧
      FreeList inserted blocks' ∧ blocks'.Perm (block::(front++back))) ↔ front=[] ∨ back=[] := by
  obtain ⟨after,hinsert,hspec⟩ := insert_placed h hd hs
  have hin := inside_inserted h hd
  rw [← backLinked_inserted_iff hspec hs h.backLinked]
  constructor
  · rintro ⟨inserted,blocks',hsome,hlist,-⟩
    cases hinsert.symm.trans hsome
    have hz : ∀ other∈front++block::back,other.start≠0 := by
      intro other hm
      have hl : heap.storage≤other.start := (hin other hm).1
      have hp := h.storage_pos
      omega
    rw [hlist.eq_of_linked hspec.linked hz rfl]
    exact hlist.backLinked
  · intro hback
    refine ⟨_,front++block::back,hinsert,?_,List.perm_middle⟩
    exact ⟨h.storage_pos,h.stop_le,rfl,hspec.linked,hback,hs,hin⟩

/-- Inserting a detached block keeps the list ascending and doubly linked,
with exactly the old blocks and the new one, if and only if the block belongs
before all of them or behind all of them. -/
theorem insertIntoFreeList_keeps_iff (h : FreeList heap blocks)
    (hd : Detached heap blocks block) :
    (∃ inserted blocks', insertIntoFreeList heap block.start=some inserted ∧
      FreeList inserted blocks' ∧ blocks'.Perm (block::blocks)) ↔
      (∀ other∈blocks,block.start<other.start) ∨ ∀ other∈blocks,other.start<block.start := by
  obtain ⟨front,back,rfl,hs⟩ := exists_place h hd
  exact (insert_keeps_iff_end h hd hs).trans (place_at_end_iff hs)

end Insertion

/-- Memory with a free block of the given size and links. -/
def storeBlock (memory : Memory) (block : Span) (before after : ℕ) : Memory :=
  setWord (setWord (newFreeBlock memory block.start block.size) block.start 2 before)
    block.start 3 after

/-- A sub-heap with free blocks at 0x1000 and 0x1100 and a detached one. -/
def pairedHeap (place : ℕ) : SubHeap where
  memory := storeBlock (storeBlock (storeBlock (fun _ => 0) ⟨0x1000,96⟩ 0 0x1100) ⟨0x1100,96⟩
    0x1000 0) ⟨place,64⟩ 0 0
  storage := 0x1000
  freeList := 0x1000
  capacity := subHeapSize
  available := subHeapSize

/-- The two blocks are the free list as long as the third one is clear of
them. -/
theorem pairedHeap_freeList {place : ℕ}
    (hlinked : Linked (pairedHeap place).memory [⟨0x1000,96⟩,⟨0x1100,96⟩] 0)
    (hback : BackLinked (pairedHeap place).memory [⟨0x1000,96⟩,⟨0x1100,96⟩] 0) :
    FreeList (pairedHeap place) [⟨0x1000,96⟩,⟨0x1100,96⟩] := by
  have hpos : 0<0x1000 := by decide
  have hstop : 0x1000+subHeapSize≤2^64 := by decide
  have hfirst : (header ⟨0x1000,96⟩).Inside 0x1000 (0x1000+subHeapSize) := ⟨by decide,by decide⟩
  have hsecond : (header ⟨0x1100,96⟩).Inside 0x1000 (0x1000+subHeapSize) := ⟨by decide,by decide⟩
  refine ⟨hpos,hstop,rfl,hlinked,hback,List.pairwise_pair.mpr (by decide),?_⟩
  simp only [List.forall_mem_cons,List.not_mem_nil,false_implies,implies_true,and_true]
  exact ⟨hfirst,hsecond⟩

/-- The third block goes behind the two. -/
theorem insertion_at_end_consistent : ∃ inserted blocks',
    insertIntoFreeList (pairedHeap 0x1200) 0x1200=some inserted ∧ FreeList inserted blocks' ∧
      blocks'.Perm [⟨0x1200,64⟩,⟨0x1000,96⟩,⟨0x1100,96⟩] := by
  have hlist : FreeList (pairedHeap 0x1200) [⟨0x1000,96⟩,⟨0x1100,96⟩] :=
    pairedHeap_freeList (by decide +kernel) (by decide +kernel)
  have hd : Detached (pairedHeap 0x1200) [⟨0x1000,96⟩,⟨0x1100,96⟩] ⟨0x1200,64⟩ := by
    refine ⟨by decide +kernel,by decide +kernel,by decide +kernel,by decide +kernel,
      ⟨by decide,by decide⟩,?_⟩
    simp only [List.forall_mem_cons,List.not_mem_nil,false_implies,implies_true,and_true]
    exact ⟨Or.inr (by decide),Or.inr (by decide)⟩
  refine (insertIntoFreeList_keeps_iff hlist hd).mpr (Or.inr ?_)
  simp only [List.forall_mem_cons,List.not_mem_nil,false_implies,implies_true,and_true]
  decide

/-- Between two blocks the insertion leaves the second one's back link as it
was. -/
theorem insertion_not_always_consistent : ¬∀ heap blocks block,
    FreeList heap blocks → Detached heap blocks block → ∃ inserted blocks',
      insertIntoFreeList heap block.start=some inserted ∧ FreeList inserted blocks' ∧
        blocks'.Perm (block::blocks) := by
  intro h
  have hlist : FreeList (pairedHeap 0x1080) ([⟨0x1000,96⟩]++[⟨0x1100,96⟩]) :=
    pairedHeap_freeList (by decide +kernel) (by decide +kernel)
  have hd : Detached (pairedHeap 0x1080) ([⟨0x1000,96⟩]++[⟨0x1100,96⟩]) ⟨0x1080,64⟩ := by
    refine ⟨by decide +kernel,by decide +kernel,by decide +kernel,by decide +kernel,
      ⟨by decide,by decide⟩,?_⟩
    simp only [List.singleton_append,List.forall_mem_cons,List.not_mem_nil,false_implies,
      implies_true,and_true]
    exact ⟨Or.inr (by decide),Or.inl (by decide)⟩
  have hs : Spread ([⟨0x1000,96⟩]++⟨0x1080,64⟩::[⟨0x1100,96⟩]) := by
    simp only [Spread,List.singleton_append,List.pairwise_cons,List.forall_mem_cons]
    decide
  have hends := (insert_keeps_iff_end hlist hd hs).mp (h _ _ _ hlist hd)
  exact hends.elim (List.cons_ne_nil _ _) (List.cons_ne_nil _ _)

section Splitting

variable {heap : SubHeap} {blocks : List Span} {block : Span} {memory : Memory} {request : ℕ}

/-- What a request leaves of the block's payload: `right_hand_size`. -/
def remainder (memory : Memory) (block request : ℕ) : ℕ :=
  u64Sub (allocatableSize memory block) request

/-- The request splits the block in two: the left part offers exactly the
request, the right one follows it in memory and in the list, and nothing of
the block is lost or counted twice. -/
def SplitsInTwo (heap : SubHeap) (blocks : List Span) (block : Span) (request : ℕ) : Prop :=
  let memory := splitIfRequired heap.memory block.start request
  allocatableSize memory block.start=request ∧ ∃ front back left right,
    blocks=front++block::back ∧ left.start=block.start ∧ left.stop=right.start ∧
      left.size+right.size=block.size ∧
      FreeList {heap with memory := memory} (front++left::right::back)

/-- `split_if_required` leaves a block alone when the remainder is too small
and splits it in two otherwise. -/
def Partitions (heap : SubHeap) (blocks : List Span) (block : Span) (request : ℕ) : Prop :=
  (remainder heap.memory block.start request<sizeofFreeBlock ∧
      splitIfRequired heap.memory block.start request=heap.memory) ∨
    SplitsInTwo heap blocks block request

/-- A block of a list has the size its header says. -/
theorem blockSize_of_mem {tail : ℕ} (h : Linked memory blocks tail) (hm : block∈blocks) :
    blockSize memory block.start=block.size := by
  obtain ⟨front,back,rfl⟩ := List.append_of_mem hm
  exact ((linked_append front (block::back) tail).mp h).2.2.1

/-- A remainder without room for a header is left in the block. -/
theorem splitIfRequired_kept {block : ℕ} (h : remainder memory block request<sizeofFreeBlock) :
    splitIfRequired memory block request=memory := by
  unfold splitIfRequired
  split
  · rfl
  · exact if_pos h

/-- A block that is split offers the size of another header more than was
asked for. -/
theorem allocatableSize_split (hb : blockSize memory block.start=block.size)
    (hpos : 0<block.start) (hstop : block.stop≤2^64) (hsize : sizeofAllocatedBlock≤block.size)
    (hr : request≤allocatableSize memory block.start)
    (h : sizeofFreeBlock≤remainder memory block.start request) :
    allocatableSize (splitIfRequired memory block.start request) block.start=request+16 := by
  have halloc : allocatableSize memory block.start=block.size-16 :=
    @allocatableSize_eq _ _ 0 (by rwa [Nat.zero_add]) hpos hstop hb
  unfold sizeofAllocatedBlock at hsize
  unfold Span.stop at hstop
  rw [remainder,halloc,u64Sub_of_le (halloc ▸ hr) (by omega)] at h
  rw [halloc] at hr
  unfold sizeofFreeBlock at h
  have hne : ¬request=block.size-16 := by omega
  have hlt : ¬block.size-16-request<sizeofFreeBlock := by
    unfold sizeofFreeBlock
    omega
  have hright : u64 (block.start+sizeofAllocatedBlock+request)=block.start+16+request :=
    u64_of_lt (by unfold sizeofAllocatedBlock; omega)
  -- the new header may overlap the old links but not the old size
  have hkept : ∀ m index value,
      word (setWord m (block.start+16+request) index value) block.start 1=
        word m block.start 1 :=
    fun m index value => readLE_writeLE_apart m (by unfold Apart; omega)
  have hword : blockSize (splitIfRequired memory block.start request) block.start=
      request+sizeofFreeBlock := by
    unfold splitIfRequired
    dsimp only
    rw [halloc,if_neg hne,u64Sub_of_le hr (by omega),if_neg hlt,hright]
    unfold blockSize newFreeBlock
    rw [word_setWord_ne _ _ _ (by omega)]
    simp only [hkept,word_setWord_self]
    exact u64_of_lt (by unfold sizeofFreeBlock; omega)
  unfold allocatableSize
  rw [hword,u64Sub_of_le (by unfold sizeofAllocatedBlock sizeofFreeBlock; omega)
    (by unfold sizeofFreeBlock; omega)]
  unfold sizeofAllocatedBlock sizeofFreeBlock
  omega

/-- A split does what its comment draws if and only if there is nothing to
split: whenever the remainder can hold a header, the left block keeps the
size of a free block's header although the right one starts behind an
allocated block's. -/
theorem splitIfRequired_partitions_iff (h : FreeList heap blocks) (hm : block∈blocks)
    (hsize : sizeofFreeBlock≤block.size)
    (hin : block.Inside heap.storage (heap.storage+heap.capacity))
    (hr : request≤allocatableSize heap.memory block.start) :
    Partitions heap blocks block request ↔
      remainder heap.memory block.start request<sizeofFreeBlock := by
  constructor
  · rintro (hsmall|hsplits)
    · exact hsmall.1
    · by_contra hlarge
      have hpos : 0<block.start := h.storage_pos.trans_le hin.1
      have hover := allocatableSize_split (blockSize_of_mem h.linked hm) hpos
        (hin.2.trans h.stop_le) (le_trans (by decide) hsize) hr (Nat.le_of_not_lt hlarge)
      have hexact := hsplits.1
      omega
  · exact fun hsmall => Or.inl ⟨hsmall,splitIfRequired_kept hsmall⟩

/-- Sixteen bytes less than the whole payload are served without a split. -/
theorem small_remainder_kept :
    Partitions (pairedHeap 0x1200) [⟨0x1000,96⟩,⟨0x1100,96⟩] ⟨0x1000,96⟩ 64 :=
  (splitIfRequired_partitions_iff
    (pairedHeap_freeList (by decide +kernel) (by decide +kernel)) List.mem_cons_self (by decide)
    ⟨by decide,by decide⟩ (by decide +kernel)).mpr (by decide +kernel)

/-- A request of 32 bytes leaves a left block that offers 48. -/
theorem split_not_always_partitions : ¬∀ heap blocks block request, FreeList heap blocks →
    block∈blocks → sizeofFreeBlock≤block.size →
      block.Inside heap.storage (heap.storage+heap.capacity) →
        request≤allocatableSize heap.memory block.start → Partitions heap blocks block request := by
  intro h
  have hlist : FreeList (pairedHeap 0x1200) [⟨0x1000,96⟩,⟨0x1100,96⟩] :=
    pairedHeap_freeList (by decide +kernel) (by decide +kernel)
  rcases h _ _ ⟨0x1000,96⟩ 32 hlist List.mem_cons_self (by decide) ⟨by decide,by decide⟩
    (by decide +kernel) with hsmall|hsplits
  · exact absurd hsmall.1 (by decide +kernel)
  · exact absurd hsplits.1 (by decide +kernel)

end Splitting

section Merging

variable {heap : SubHeap} {blocks front back : List Span} {block : Span}

/-- Memory after the two merge attempts of `free`. -/
def coalesced (memory : Memory) (block : ℕ) : Memory :=
  coalesceWithPreviousBlock (coalesceWithNextBlock memory block) block

/-- A free list in which the block has been joined with all it touched. -/
structure Rejoined (heap : SubHeap) (blocks merged : List Span) (block : Span) : Prop where
  /-- The new list is linked in both directions. -/
  freeList : FreeList heap merged
  /-- Its blocks are in address order, without overlap, inside the storage. -/
  lined : Lined heap.storage (heap.storage+heap.capacity) merged
  /-- No byte is lost or gained. -/
  covered : ∀ x, Covered merged x ↔ Covered blocks x
  /-- The block that now contains the given one touches no other. -/
  joined : ∃ whole∈merged,whole.start≤block.start ∧ block.stop≤whole.stop ∧
    ∀ other∈merged,other.stop≠whole.start ∧ whole.stop≠other.start
  /-- Blocks that did not touch the given one are as they were. -/
  kept : ∀ other∈blocks,other≠block → other.stop≠block.start → block.stop≠other.start →
    other∈merged

/-- A block among others that do not touch each other is placed between two
parts of a layout. -/
theorem placed_of_lined (hL : Lined heap.storage (heap.storage+heap.capacity) (front++block::back))
    (hna : ∀ first∈front++block::back,∀ second∈front++block::back,
      first≠block → second≠block → first.stop≠ second.start) :
    Placed heap.storage (heap.storage+heap.capacity) block front back := by
  obtain ⟨hfs,hbs,hfb⟩ := List.pairwise_append.mp hL.ascending
  obtain ⟨hback,hbs⟩ := List.pairwise_cons.mp hbs
  have hmem : ∀ other∈front++back,other∈front++block::back := by
    intro other hm
    simp only [List.mem_append,List.mem_cons] at hm ⊢
    tauto
  have hother : ∀ other∈front++back,other≠block := by
    intro other hm he
    have ha := spread_middle hL.spread other hm
    rw [he] at ha
    unfold HeaderApart sizeofFreeBlock at ha
    omega
  have hascending : Ascending (front++back) :=
    List.pairwise_append.mpr ⟨hfs,hbs,fun first hf later hl =>
      hfb first hf later (List.mem_cons_of_mem _ hl)⟩
  have hseparated : Separated (front++back) := by
    refine hascending.imp_of_mem (fun hf hs hle => lt_of_le_of_ne hle ?_)
    exact hna _ (hmem _ hf) _ (hmem _ hs) (hother _ hf) (hother _ hs)
  exact ⟨⟨hL.low_pos,hL.high_le,hseparated,fun other hm => hL.sizes other (hmem other hm),
    fun other hm => hL.inside other (hmem other hm)⟩,hL.sizes block (by simp),
    hL.inside block (by simp),fun first hf => hfb first hf block List.mem_cons_self,hback⟩

/-- A release at a placed block's place keeps the head of the list. -/
theorem headOr_release {low high : ℕ} (hP : Placed low high block front back) :
    headOr (release block (front++back)) 0=headOr (front++block::back) 0 := by
  rcases List.eq_nil_or_concat' front with rfl|⟨init,last,rfl⟩
  · rw [hP.release_eq]
    exact headOr_joinFront block back 0
  · rw [hP.release_last,headOr_append,headOr_joinFront,List.append_assoc,headOr_append]
    rfl

/-- Releasing a placed block gives a layout. -/
theorem layout_release {low high : ℕ} (hP : Placed low high block front back) :
    Layout low high (release block (front++back)) := by
  have hpos : ∀ other : Span,sizeofFreeBlock≤other.size → 0<other.size :=
    fun other hz => lt_of_lt_of_le (by decide) hz
  have hapart : ∀ other∈front++back,block.Apart other := by
    intro other hm
    rcases List.mem_append.mp hm with hf|hb
    · exact Or.inr (hP.before other hf)
    · exact Or.inl (hP.behind other hb)
  refine ⟨hP.layout.low_pos,hP.layout.high_le,?_,?_,?_⟩
  · exact separated_release hP.layout.separated (hpos block hP.size)
      (fun other hm => hpos other (hP.layout.sizes other hm)) hapart
  · have hsizes : ∀ other∈release block (front++back),
        (fun other : Span => sizeofFreeBlock≤other.size) other :=
      forall_release (fun _ _ ha _ _ => ha.trans (Nat.le_add_right _ _)) hP.size hP.layout.sizes
    exact hsizes
  · exact release_inside hP.inside hP.layout.inside

/-- A merge that leaves the list of a release keeps it linked in both
directions. -/
theorem FreeList.released {after : Memory} (h : FreeList heap (front++block::back))
    (hP : Placed heap.storage (heap.storage+heap.capacity) block front back)
    (hmerge : MergeSpec heap.memory after block front back) :
    FreeList {heap with memory := after} (release block (front++back)) := by
  obtain ⟨hbf,hp,hbb⟩ := (backLinked_append front (block::back) 0).mp h.backLinked
  have hlayout := layout_release hP
  refine ⟨hlayout.low_pos,hlayout.high_le,h.head_eq.trans (headOr_release hP).symm,
    hmerge.linked,hmerge.backLinked block.start hbf hbb (Or.inl rfl),hlayout.spread,?_⟩
  intro other ho
  have hin := hlayout.inside other ho
  have hz := hlayout.sizes other ho
  unfold Span.Inside Span.stop header at *
  dsimp only
  omega

/-- The two merges of `free` rejoin a block with every block it touches, on
any list whose other blocks do not touch each other. -/
theorem coalesced_rejoins (h : FreeList heap blocks)
    (hL : Lined heap.storage (heap.storage+heap.capacity) blocks) (hm : block∈blocks)
    (hna : ∀ first∈blocks,∀ second∈blocks,
      first≠block → second≠block → first.stop≠ second.start) :
    ∃ merged,Rejoined {heap with memory := coalesced heap.memory block.start} blocks merged
      block := by
  obtain ⟨front,back,rfl⟩ := List.append_of_mem hm
  have hP := placed_of_lined hL hna
  have hp : previous heap.memory block.start=lastOr front 0 :=
    ((backLinked_append front (block::back) 0).mp h.backLinked).2.1
  have hlayout := layout_release hP
  have hpos : ∀ other∈release block (front++back),0<other.size :=
    fun other ho => lt_of_lt_of_le (by decide) (hlayout.sizes other ho)
  refine ⟨release block (front++back),h.released hP (merge_spec hP h.linked hp),?_,?_,?_,?_⟩
  · exact ⟨hlayout.low_pos,hlayout.high_le,hlayout.separated.ascending,hlayout.sizes,
      hlayout.inside⟩
  · intro x
    simp only [covered_release,covered_append,covered_cons]
    exact or_left_comm
  · obtain ⟨whole,hw,hstart,hstop⟩ := exists_mem_release block (front++back)
    refine ⟨whole,hw,hstart,hstop,fun other ho => ⟨?_,?_⟩⟩
    · exact hlayout.separated.stop_ne_start hpos ho hw
    · exact hlayout.separated.stop_ne_start hpos hw ho
  · intro other ho hne hbefore hbehind
    refine mem_release_of_untouched hP.layout.separated ?_ hbefore hbehind
    rcases List.mem_append.mp ho with hf|hb
    · exact List.mem_append_left _ hf
    · exact List.mem_append_right _ ((List.mem_cons.mp hb).resolve_left hne)

/-- A sub-heap whose free list is three neighbours without a gap. -/
def touchingHeap : SubHeap where
  memory := storeBlock (storeBlock (storeBlock (fun _ => 0) ⟨0x1000,64⟩ 0 0x1040) ⟨0x1040,64⟩
    0x1000 0x1080) ⟨0x1080,64⟩ 0x1040 0
  storage := 0x1000
  freeList := 0x1000
  capacity := subHeapSize
  available := subHeapSize

/-- The middle one of three neighbours becomes one block with the others. -/
theorem coalesced_rejoins_neighbours : ∃ merged,
    Rejoined {touchingHeap with memory := coalesced touchingHeap.memory 0x1040}
      [⟨0x1000,64⟩,⟨0x1040,64⟩,⟨0x1080,64⟩] merged ⟨0x1040,64⟩ := by
  have hblocks : ∀ other∈[(⟨0x1000,64⟩ : Span),⟨0x1040,64⟩,⟨0x1080,64⟩],
      0x1000≤other.start ∧ other.size=64 ∧ other.stop≤0x1000+subHeapSize := by
    simp only [List.forall_mem_cons,List.not_mem_nil,false_implies,implies_true,and_true]
    decide
  have hascending : Ascending [⟨0x1000,64⟩,⟨0x1040,64⟩,⟨0x1080,64⟩] := by
    simp only [Ascending,List.pairwise_cons,List.forall_mem_cons]
    decide
  have hlined : Lined touchingHeap.storage (touchingHeap.storage+touchingHeap.capacity)
      [⟨0x1000,64⟩,⟨0x1040,64⟩,⟨0x1080,64⟩] :=
    ⟨by decide,by decide,hascending,fun other hm => (hblocks other hm).2.1 ▸ by decide,
      fun other hm => ⟨(hblocks other hm).1,(hblocks other hm).2.2⟩⟩
  have hlist : FreeList touchingHeap [⟨0x1000,64⟩,⟨0x1040,64⟩,⟨0x1080,64⟩] := by
    refine ⟨by decide,by decide,rfl,by decide +kernel,by decide +kernel,hlined.spread,?_⟩
    intro other hm
    obtain ⟨hlow,hsize,hhigh⟩ := hblocks other hm
    refine ⟨hlow,le_trans ?_ hhigh⟩
    unfold Span.stop header sizeofFreeBlock
    dsimp only
    omega
  refine @coalesced_rejoins touchingHeap _ ⟨0x1040,64⟩ hlist hlined (by simp) ?_
  simp only [List.forall_mem_cons,List.not_mem_nil,false_implies,implies_true,and_true]
  refine ⟨⟨?_,?_,?_⟩,⟨?_,?_,?_⟩,?_,?_,?_⟩ <;> intro hf hs <;> revert hf hs <;> decide

end Merging

end WorkbenchOS.KmallocLinks
