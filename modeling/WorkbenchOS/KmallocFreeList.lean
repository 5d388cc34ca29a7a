import WorkbenchOS.KmallocSubHeap
import WorkbenchOS.SpanLists

/-!
# The free list in memory

`Linked` follows the forward links of a list of blocks found in memory,
`BackLinked` the backward ones. The two are kept apart because the source
maintains only the forward direction everywhere: a split and an insertion
can leave the successor's back link stale. Each list operation has one
specification here, in terms of the blocks before and after the place it
works at, and states which bytes it may touch.
-/

namespace WorkbenchOS.KmallocFreeList

open ByteMemory LibStd SpanLists KmallocSubHeap

/-- Address of the first block, or the given pointer for an empty list. -/
def headOr : List Span→ℕ→ℕ
  | [],tail => tail
  | block::_,_ => block.start

/-- Address of the last block, or the given pointer for an empty list. -/
def lastOr : List Span→ℕ→ℕ
  | [],before => before
  | block::rest,_ => lastOr rest block.start

/-- A list of free blocks in memory: canaries, sizes and forward links, the
last of which is `tail`. -/
def Linked (memory : Memory) : List Span→ℕ→Prop
  | [],_ => True
  | block::rest,tail => canary memory block.start=freeCanary ∧
      blockSize memory block.start=block.size ∧
      next memory block.start=headOr rest tail ∧ Linked memory rest tail

/-- Back links of a list of blocks, the first of which is `before`. -/
def BackLinked (memory : Memory) : List Span→ℕ→Prop
  | [],_ => True
  | block::rest,before => previous memory block.start=before ∧
      BackLinked memory rest block.start

instance decidableLinked (memory : Memory) :
    ∀ blocks tail, Decidable (Linked memory blocks tail)
  | [],_ => isTrue trivial
  | _::rest,tail =>
    have := decidableLinked memory rest tail
    inferInstanceAs (Decidable (_ ∧ _ ∧ _ ∧ _))

instance decidableBackLinked (memory : Memory) :
    ∀ blocks before, Decidable (BackLinked memory blocks before)
  | [],_ => isTrue trivial
  | block::rest,_ =>
    have := decidableBackLinked memory rest block.start
    inferInstanceAs (Decidable (_ ∧ _))

/-- Two block headers share no byte. -/
def HeaderApart (first second : ℕ) : Prop :=
  first+sizeofFreeBlock≤ second ∨ second+sizeofFreeBlock≤first

/-- Block headers are far enough apart not to overlap. -/
def Spread (blocks : List Span) : Prop :=
  blocks.Pairwise (fun first second => first.start+sizeofFreeBlock≤ second.start)

/-- Different blocks of a spread list have headers apart, in either order. -/
theorem Spread.headerApart {blocks : List Span} (h : Spread blocks) {first second : Span}
    (hf : first∈blocks) (hs : second∈blocks) (hne : first≠ second) :
    HeaderApart first.start second.start := by
  have hsymm : Std.Symm (fun a b : Span => HeaderApart a.start b.start) :=
    ⟨fun _ _ ha => Or.symm ha⟩
  have hpair : blocks.Pairwise (fun a b => HeaderApart a.start b.start) :=
    h.imp (fun ha => Or.inl ha)
  exact hpair.forall hf hs hne

@[simp] theorem headOr_append (front back : List Span) (tail : ℕ) :
    headOr (front++back) tail=headOr front (headOr back tail) := by
  cases front <;> rfl

@[simp] theorem lastOr_append (front back : List Span) (before : ℕ) :
    lastOr (front++back) before=lastOr back (lastOr front before) := by
  induction front generalizing before with
  | nil => rfl
  | cons block rest ih => exact ih block.start

theorem linked_append {memory : Memory} (front back : List Span) (tail : ℕ) :
    Linked memory (front++back) tail ↔
      Linked memory front (headOr back tail) ∧ Linked memory back tail := by
  induction front with
  | nil => simp [Linked]
  | cons block rest ih =>
    simp only [List.cons_append,Linked,headOr_append,ih,and_assoc]

theorem backLinked_append {memory : Memory} (front back : List Span) (before : ℕ) :
    BackLinked memory (front++back) before ↔
      BackLinked memory front before ∧ BackLinked memory back (lastOr front before) := by
  induction front generalizing before with
  | nil => simp [BackLinked,lastOr]
  | cons block rest ih => simp only [List.cons_append,BackLinked,lastOr,ih,and_assoc]

/-- The pointer behind a nonempty list was read from memory. -/
theorem tail_lt {memory : Memory} {front : List Span} {tail : ℕ} (hne : front≠[])
    (h : Linked memory front tail) : tail<2^64 := by
  induction front with
  | nil => exact absurd rfl hne
  | cons block rest ih =>
    obtain ⟨-,-,hn,hl⟩ := h
    cases rest with
    | nil =>
      have he : next memory block.start=tail := hn
      rw [← he]
      exact readLE_lt _ _ _
    | cons later rest => exact ih (List.cons_ne_nil _ _) hl

/-- A nonempty list's last address belongs to one of its blocks. -/
theorem lastOr_mem {blocks : List Span} (before : ℕ) (h : blocks≠[]) :
    ∃ block∈blocks,block.start=lastOr blocks before := by
  induction blocks generalizing before with
  | nil => exact absurd rfl h
  | cons block rest ih =>
    cases rest with
    | nil => exact ⟨block,List.mem_cons_self,rfl⟩
    | cons later rest =>
      obtain ⟨last,hm,he⟩ := ih block.start (List.cons_ne_nil _ _)
      exact ⟨last,List.mem_cons_of_mem _ hm,he⟩

/-- The blocks found by following the forward links from a pointer. -/
def walk (memory : Memory) : (fuel cursor : ℕ)→List Span
  | 0,_ => []
  | fuel+1,cursor =>
    if cursor=0 then [] else ⟨cursor,blockSize memory cursor⟩::walk memory fuel (next memory cursor)

/-- The forward links determine the list: it is the one a walk finds. -/
theorem Linked.walk_eq {memory : Memory} {blocks : List Span} {fuel : ℕ}
    (h : Linked memory blocks 0) (hz : ∀ block∈blocks,block.start≠0)
    (hf : blocks.length≤fuel) : walk memory fuel (headOr blocks 0)=blocks := by
  induction blocks generalizing fuel with
  | nil =>
    cases fuel with
    | zero => rfl
    | succ fuel =>
      rw [walk]
      exact if_pos rfl
  | cons block rest ih =>
    cases fuel with
    | zero => cases hf
    | succ fuel =>
      obtain ⟨-,hb,hn,hl⟩ := h
      obtain ⟨hzb,hzr⟩ := List.forall_mem_cons.mp hz
      change walk memory (fuel+1) block.start=_
      rw [walk,if_neg hzb,hb,hn,ih hl hzr (by simpa using hf)]

section Words

variable (memory : Memory) (block other index field value : ℕ)

/-- A header word reads back as stored, modulo 64 bits. -/
theorem word_setWord_self : word (setWord memory block index value) block index=u64 value := by
  unfold word setWord u64
  rw [readLE_writeLE_self]
  norm_num

variable {index field}

/-- The words of one header are independent of each other. -/
theorem word_setWord_ne (h : field≠index) :
    word (setWord memory block index value) block field=word memory block field := by
  unfold word setWord
  exact readLE_writeLE_apart memory (by unfold Apart; omega)

variable {block other}

/-- Words of headers that do not overlap are independent of each other. -/
theorem word_setWord_apart (h : HeaderApart block other) (hi : index<4) (hf : field<4) :
    word (setWord memory other index value) block field=word memory block field := by
  unfold HeaderApart sizeofFreeBlock at h
  unfold word setWord
  exact readLE_writeLE_apart memory (by unfold Apart; omega)

/-- A header word's store changes bytes of that header only. -/
theorem setWord_frame {x : ℕ} (h : x<block ∨ block+32≤x) (hi : index<4) :
    setWord memory block index value x=memory x := by
  have hn : ¬(block+8*index≤x ∧ x<block+8*index+8) := by omega
  simp only [setWord,writeLE,if_neg hn]

end Words

section Stores

variable {memory : Memory} {blocks : List Span} {target index value tail before : ℕ}

/-- A store into a header keeps the forward list when it is apart from every
block or only sets a back link. -/
theorem linked_setWord (hi : index<4)
    (h : ∀ block∈blocks,HeaderApart block.start target ∨ (block.start=target ∧ index=2)) :
    Linked (setWord memory target index value) blocks tail ↔ Linked memory blocks tail := by
  induction blocks with
  | nil => exact Iff.rfl
  | cons block rest ih =>
    obtain ⟨hb,hr⟩ := List.forall_mem_cons.mp h
    have hw : ∀ field, field<4 → field≠2 →
        word (setWord memory target index value) block.start field=
          word memory block.start field := by
      intro field hf hne
      rcases hb with ha|⟨he,hk⟩
      · exact word_setWord_apart memory value ha hi hf
      · rw [he]
        exact word_setWord_ne memory target value (by omega)
    simp only [Linked,canary,blockSize,next,hw 0 (by omega) (by omega),
      hw 1 (by omega) (by omega),hw 3 (by omega) (by omega),ih hr]

/-- Two stores into a header apart from every block keep the list. -/
theorem linked_setWord_twice {other second : ℕ} (hi : index<4) (ho : other<4)
    (h : ∀ block∈blocks,HeaderApart block.start target) :
    Linked (setWord (setWord memory target index value) target other second) blocks tail ↔
      Linked memory blocks tail :=
  (linked_setWord ho (fun block hm => Or.inl (h block hm))).trans
    (linked_setWord hi (fun block hm => Or.inl (h block hm)))

/-- Redirecting the last forward link moves the end of the list. -/
theorem linked_setLast (hs : Spread blocks) (hb : blocks≠[]) (hv : value<2^64)
    (h : Linked memory blocks tail) :
    Linked (setWord memory (lastOr blocks before) 3 value) blocks value := by
  induction blocks generalizing before with
  | nil => exact absurd rfl hb
  | cons block rest ih =>
    obtain ⟨hc,hz,hn,hl⟩ := h
    obtain ⟨hfirst,hspread⟩ := List.pairwise_cons.mp hs
    cases rest with
    | nil =>
      refine ⟨?_,?_,?_,trivial⟩
      · rw [← hc]
        exact word_setWord_ne memory block.start value (by omega)
      · rw [← hz]
        exact word_setWord_ne memory block.start value (by omega)
      · exact (word_setWord_self memory block.start 3 value).trans (u64_of_lt hv)
    | cons later rest =>
      obtain ⟨last,hm,he⟩ := lastOr_mem block.start (List.cons_ne_nil later rest)
      have hg := hfirst last hm
      have ha : HeaderApart block.start (lastOr (later::rest) block.start) := by
        rw [← he]
        exact Or.inl hg
      have hw : ∀ field, field<4 →
          word (setWord memory (lastOr (later::rest) block.start) 3 value) block.start field=
            word memory block.start field :=
        fun field hf => word_setWord_apart memory value ha (by omega) hf
      exact ⟨(hw 0 (by omega)).trans hc,(hw 1 (by omega)).trans hz,(hw 3 (by omega)).trans hn,
        @ih block.start hspread (List.cons_ne_nil _ _) hl⟩

end Stores

section Frames

variable {memory after : Memory} {blocks : List Span} {tail before : ℕ}

/-- A header whose bytes are unchanged has the same words. -/
theorem word_congr {block field : ℕ} (h : Unchanged memory after block sizeofFreeBlock)
    (hf : field<4) : word after block field=word memory block field :=
  readLE_congr (h.mono (by omega) (by unfold sizeofFreeBlock; omega))

/-- Unchanged headers keep the forward list. -/
theorem linked_congr (h : ∀ block∈blocks,Unchanged memory after block.start sizeofFreeBlock) :
    Linked after blocks tail ↔ Linked memory blocks tail := by
  induction blocks with
  | nil => exact Iff.rfl
  | cons block rest ih =>
    obtain ⟨hb,hr⟩ := List.forall_mem_cons.mp h
    simp only [Linked,canary,blockSize,next,word_congr hb (by omega : 0<4),
      word_congr hb (by omega : 1<4),word_congr hb (by omega : 3<4),ih hr]

/-- Equal back links of every block keep the backward list. -/
theorem backLinked_congr
    (h : ∀ block∈blocks,previous after block.start=previous memory block.start) :
    BackLinked after blocks before ↔ BackLinked memory blocks before := by
  induction blocks generalizing before with
  | nil => exact Iff.rfl
  | cons block rest ih =>
    obtain ⟨hb,hr⟩ := List.forall_mem_cons.mp h
    simp only [BackLinked,hb,ih hr]

end Frames

/-- What `split_if_required` leaves behind the carved block: the right-hand
block, when the remainder can hold a free block's header. -/
def giveBack (request : ℕ) (block : Span) : List Span :=
  if request+sizeofAllocatedBlock+sizeofFreeBlock≤block.size then
    [⟨block.start+sizeofAllocatedBlock+request,block.size-sizeofAllocatedBlock-request⟩]
  else []

/-- Memory after a split: the block's links, the list behind it, and the
bytes that can have changed. -/
structure SplitSpec (memory after : Memory) (request : ℕ) (block : Span) (back : List Span) :
    Prop where
  /-- The forward link leads to what was given back. -/
  next_eq : next after block.start=headOr (giveBack request block++back) 0
  /-- The back link is untouched. -/
  previous_eq : previous after block.start=previous memory block.start
  /-- The list behind the block is a free list again. -/
  linked : Linked after (giveBack request block++back) 0
  /-- A new block's back link leads to the carved one. -/
  back_eq : ∀ part∈giveBack request block,previous after part.start=block.start
  /-- Only the block's own bytes are written. -/
  frame : ∀ x, ¬block.Holds x → after x=memory x

/-- Memory after a split: the remainder from `right` on is a new block between
the carved one and what followed it. -/
def splitMemory (memory : Memory) (block : Span) (request right after : ℕ) : Memory :=
  setWord (setWord (setWord (newFreeBlock (setWord memory block.start 1 (request+32)) right
    (block.size-16-request)) right 2 block.start) right 3 after) block.start 3 right

/-- The payload size the block offers. -/
theorem allocatableSize_eq {memory : Memory} {block : Span} {request : ℕ}
    (hfit : request+sizeofAllocatedBlock≤block.size) (hpos : 0<block.start)
    (hstop : block.stop≤2^64) (hz : blockSize memory block.start=block.size) :
    allocatableSize memory block.start=block.size-16 := by
  unfold sizeofAllocatedBlock at hfit
  unfold Span.stop at hstop
  unfold allocatableSize
  rw [hz]
  exact u64Sub_of_le (by unfold sizeofAllocatedBlock; omega) (by omega)

/-- A remainder with room for a header becomes a block of its own. -/
theorem splitIfRequired_splits {memory : Memory} {request : ℕ} {block : Span} {after : ℕ}
    (hr : sizeofFreeBlock≤request) (hsplit : request+16+32≤block.size) (hpos : 0<block.start)
    (hstop : block.stop≤2^64) (hz : blockSize memory block.start=block.size)
    (hn : next memory block.start=after) :
    splitIfRequired memory block.start request=
      splitMemory memory block request (block.start+16+request) after := by
  have halloc : allocatableSize memory block.start=block.size-16 :=
    allocatableSize_eq (by unfold sizeofAllocatedBlock; omega) hpos hstop hz
  unfold Span.stop at hstop
  unfold sizeofFreeBlock at hr
  have hrest : u64Sub (block.size-16) request=block.size-16-request :=
    u64Sub_of_le (by omega) (by omega)
  have hrhs : u64 (block.start+sizeofAllocatedBlock+request)=block.start+16+request :=
    u64_of_lt (by unfold sizeofAllocatedBlock; omega)
  have hne : ¬request=block.size-16 := by omega
  have hlt : ¬block.size-16-request<sizeofFreeBlock := by
    unfold sizeofFreeBlock
    omega
  have hapart : HeaderApart block.start (block.start+16+request) :=
    Or.inl (by unfold sizeofFreeBlock; omega)
  have hnext : next (setWord (newFreeBlock (setWord memory block.start 1 (request+32))
      (block.start+16+request) (block.size-16-request)) (block.start+16+request) 2 block.start)
        block.start=after := by
    rw [← hn]
    unfold next newFreeBlock
    simp (disch := first | assumption | omega) only [word_setWord_apart,word_setWord_ne]
  unfold splitIfRequired
  dsimp only
  rw [halloc,if_neg hne,hrest,if_neg hlt,hrhs]
  rw [show request+sizeofFreeBlock=request+32 from rfl,hnext,splitMemory]

/-- The new block is in its place of the list. -/
theorem splitMemory_spec {memory : Memory} {request right : ℕ} {block : Span} {back : List Span}
    (hright : right=block.start+16+request) (hr : sizeofFreeBlock≤request)
    (hsplit : request+16+32≤block.size) (hpos : 0<block.start) (hstop : block.stop≤2^64)
    (hback : ∀ later∈back,block.stop≤later.start) (h : Linked memory (block::back) 0) :
    SplitSpec memory (splitMemory memory block request right (headOr back 0)) request block
      back := by
  obtain ⟨-,-,hn,hl⟩ := h
  unfold Span.stop at hstop hback
  unfold sizeofFreeBlock at hr
  have hgive : giveBack request block=[⟨right,block.size-16-request⟩] := by
    rw [hright]
    exact if_pos hsplit
  have hbr : HeaderApart block.start right := Or.inl (by unfold sizeofFreeBlock; omega)
  have hrb : HeaderApart right block.start := Or.inr (by unfold sizeofFreeBlock; omega)
  have hnext : headOr back 0<2^64 := by
    rw [← hn]
    exact readLE_lt _ _ _
  constructor
  · rw [hgive]
    unfold next splitMemory
    rw [word_setWord_self,u64_of_lt (by omega)]
    rfl
  · unfold previous splitMemory newFreeBlock
    simp (disch := first | assumption | omega) only [word_setWord_apart,word_setWord_ne]
  · rw [hgive]
    refine ⟨?_,?_,?_,?_⟩
    · unfold canary splitMemory newFreeBlock
      simp (disch := first | assumption | omega) only [word_setWord_apart,word_setWord_ne,
        word_setWord_self]
      rfl
    · unfold blockSize splitMemory newFreeBlock
      simp (disch := first | assumption | omega) only [word_setWord_apart,word_setWord_ne,
        word_setWord_self]
      exact u64_of_lt (by omega)
    · unfold next splitMemory
      simp (disch := first | assumption | omega) only [word_setWord_apart,word_setWord_self]
      exact u64_of_lt hnext
    · refine (linked_congr ?_).mpr hl
      intro later hm x hx hy
      have hg := hback later hm
      unfold splitMemory newFreeBlock
      simp (disch := omega) only [setWord_frame]
  · rw [hgive]
    intro part hm
    rw [List.mem_singleton.mp hm]
    unfold previous splitMemory
    simp (disch := first | assumption | omega) only [word_setWord_apart,word_setWord_ne,
      word_setWord_self]
    exact u64_of_lt (by omega)
  · intro x hx
    unfold Span.Holds Span.stop at hx
    unfold splitMemory newFreeBlock
    simp (disch := omega) only [setWord_frame]

/-- `split_if_required` on a block of a free list. -/
theorem splitIfRequired_spec {memory : Memory} {request : ℕ} {block : Span} {back : List Span}
    (hr : sizeofFreeBlock≤request) (hfit : request+sizeofAllocatedBlock≤block.size)
    (hpos : 0<block.start) (hstop : block.stop≤2^64) (hback : ∀ later∈back,block.stop≤later.start)
    (h : Linked memory (block::back) 0) :
    SplitSpec memory (splitIfRequired memory block.start request) request block back := by
  have ⟨_,hz,hn,hl⟩ := h
  by_cases hsplit : request+16+32≤block.size
  · -- the remainder becomes a block of its own
    rw [splitIfRequired_splits hr hsplit hpos hstop hz hn]
    exact splitMemory_spec rfl hr hsplit hpos hstop hback h
  · -- too little would remain: the block is taken whole
    have hgive : giveBack request block=[] := if_neg hsplit
    have hmem : splitIfRequired memory block.start request=memory := by
      unfold splitIfRequired
      rw [allocatableSize_eq hfit hpos hstop hz]
      unfold Span.stop at hstop
      unfold sizeofAllocatedBlock at hfit
      split
      · rfl
      · rw [u64Sub_of_le (by omega) (by omega),if_pos (by unfold sizeofFreeBlock; omega)]
    rw [hmem]
    exact ⟨by rw [hgive]; exact hn,rfl,by rw [hgive]; exact hl,by simp [hgive],fun _ _ => rfl⟩

/-- Store the back link of the first block, if there is one. -/
def setHeadPrevious (memory : Memory) (blocks : List Span) (value : ℕ) : Memory :=
  match blocks with
  | [] => memory
  | block::_ => setWord memory block.start 2 value

/-- Store the forward link of the last block, if there is one. -/
def setLastNext (memory : Memory) (blocks : List Span) (value : ℕ) : Memory :=
  match blocks with
  | [] => memory
  | block::rest => setWord memory (lastOr rest block.start) 3 value

section Ends

variable {memory : Memory} {front back : List Span} {value tail before : ℕ}

/-- The guarded store through a successor pointer is a store into the head. -/
theorem ite_headOr (hz : ∀ block∈back,block.start≠0) :
    (if headOr back 0≠0 then setWord memory (headOr back 0) 2 value else memory)=
      setHeadPrevious memory back value := by
  cases back with
  | nil => rfl
  | cons block rest => exact if_pos (hz block List.mem_cons_self)

/-- The guarded store through a predecessor pointer is a store into the last
block. -/
theorem ite_lastOr (hz : ∀ block∈front,block.start≠0) :
    (if lastOr front 0≠0 then setWord memory (lastOr front 0) 3 value else memory)=
      setLastNext memory front value := by
  cases front with
  | nil => rfl
  | cons block rest =>
    obtain ⟨last,hm,he⟩ := lastOr_mem 0 (List.cons_ne_nil block rest)
    exact if_pos (he ▸ hz last hm)

/-- The head's back link reads back as stored. -/
theorem previous_setHeadPrevious {block : Span} {rest : List Span} (hv : value<2^64) :
    previous (setHeadPrevious memory (block::rest) value) block.start=value :=
  (word_setWord_self _ _ _ _).trans (u64_of_lt hv)

/-- Headers apart from a list are not reached by a store into its head. -/
theorem word_setHeadPrevious {block field : ℕ} (hf : field<4)
    (h : ∀ other∈back,HeaderApart block other.start) :
    word (setHeadPrevious memory back value) block field=word memory block field := by
  cases back with
  | nil => rfl
  | cons other rest => exact word_setWord_apart _ _ (h other List.mem_cons_self) (by omega) hf

/-- Headers apart from a list are not reached by a store into its last block. -/
theorem word_setLastNext {block field : ℕ} (hf : field<4)
    (h : ∀ other∈front,HeaderApart block other.start) :
    word (setLastNext memory front value) block field=word memory block field := by
  cases front with
  | nil => rfl
  | cons other rest =>
    obtain ⟨last,hm,he⟩ := lastOr_mem 0 (List.cons_ne_nil other rest)
    have ha : HeaderApart block (lastOr rest other.start) := he ▸ h last hm
    exact word_setWord_apart _ _ ha (by omega) hf

/-- Storing a back link keeps the forward list it belongs to. -/
theorem linked_setHeadPrevious_self (hs : Spread back) :
    Linked (setHeadPrevious memory back value) back tail ↔ Linked memory back tail := by
  cases back with
  | nil => exact Iff.rfl
  | cons block rest =>
    refine linked_setWord (by omega) ?_
    refine List.forall_mem_cons.mpr ⟨Or.inr ⟨rfl,rfl⟩,?_⟩
    exact fun other hm => Or.inl (Or.inr ((List.pairwise_cons.mp hs).1 other hm))

/-- Storing the back link of a later list keeps an earlier one. -/
theorem linked_setHeadPrevious
    (h : ∀ first∈front,∀ later∈back,HeaderApart first.start later.start) :
    Linked (setHeadPrevious memory back value) front tail ↔ Linked memory front tail := by
  cases back with
  | nil => exact Iff.rfl
  | cons block rest =>
    exact linked_setWord (by omega) (fun other hm => Or.inl (h other hm block List.mem_cons_self))

/-- Redirecting the last forward link of one list keeps another one. -/
theorem linked_setLastNext
    (h : ∀ first∈front,∀ later∈back,HeaderApart later.start first.start) :
    Linked (setLastNext memory front value) back tail ↔ Linked memory back tail := by
  cases front with
  | nil => exact Iff.rfl
  | cons block rest =>
    obtain ⟨last,hm,he⟩ := lastOr_mem 0 (List.cons_ne_nil block rest)
    refine linked_setWord (by omega) (fun other ho => Or.inl ?_)
    have ha : HeaderApart other.start (lastOr rest block.start) := he ▸ h last hm other ho
    exact ha

/-- Redirecting the last forward link of a list moves its end. -/
theorem linked_setLastNext_self (hs : Spread front) (hv : value<2^64)
    (h : Linked memory front tail) : Linked (setLastNext memory front value) front value := by
  cases front with
  | nil => trivial
  | cons block rest => exact @linked_setLast memory _ value tail 0 hs (List.cons_ne_nil _ _) hv h

/-- Back links behind the head are not touched by a store into the head. -/
theorem previous_setHeadPrevious_tail (hs : Spread back) :
    ∀ block∈back.tail,previous (setHeadPrevious memory back value) block.start=
      previous memory block.start := by
  cases back with
  | nil => simp
  | cons block rest =>
    intro other hm
    exact word_setWord_apart _ _ (Or.inr ((List.pairwise_cons.mp hs).1 other hm))
      (by omega) (by omega)

/-- Back links are not touched by a store into a forward link. -/
theorem previous_setLastNext {block : Span}
    (h : block∈front ∨ ∀ first∈front,HeaderApart block.start first.start) (hs : Spread front) :
    previous (setLastNext memory front value) block.start=previous memory block.start := by
  cases front with
  | nil => rfl
  | cons first rest =>
    rcases h with hm|ha
    · obtain ⟨last,hl,he⟩ := lastOr_mem 0 (List.cons_ne_nil first rest)
      have hlast : last.start=lastOr rest first.start := he
      change word (setWord memory (lastOr rest first.start) 3 value) block.start 2=_
      rw [← hlast]
      by_cases heq : block=last
      · rw [heq]
        exact word_setWord_ne _ _ _ (by omega)
      · refine word_setWord_apart _ _ ?_ (by omega) (by omega)
        exact hs.headerApart hm hl heq
    · exact word_setLastNext (by omega) ha

/-- A store into a head touches that header only. -/
theorem setHeadPrevious_frame {x : ℕ}
    (h : ∀ block∈back,x<block.start ∨ block.start+sizeofFreeBlock≤x) :
    setHeadPrevious memory back value x=memory x := by
  cases back with
  | nil => rfl
  | cons block rest => exact setWord_frame _ _ (h block List.mem_cons_self) (by omega)

/-- A store into a last block touches that header only. -/
theorem setLastNext_frame {x : ℕ}
    (h : ∀ block∈front,x<block.start ∨ block.start+sizeofFreeBlock≤x) :
    setLastNext memory front value x=memory x := by
  cases front with
  | nil => rfl
  | cons block rest =>
    obtain ⟨last,hm,he⟩ := lastOr_mem 0 (List.cons_ne_nil block rest)
    have hl : last.start=lastOr rest block.start := he
    have hx := h last hm
    rw [hl] at hx
    exact setWord_frame _ _ hx (by omega)

end Ends

/-- Memory after a removal: the block is bypassed in both directions, and
only headers of the remaining list are written. -/
structure RemoveSpec (memory after : Memory) (front back : List Span) : Prop where
  /-- The blocks around the removed one are linked to each other. -/
  linked : Linked after (front++back) 0
  /-- The successor's back link bypasses the removed block. -/
  bypass : ∀ later rest, back=later::rest → previous after later.start=lastOr front 0
  /-- All other back links are as before. -/
  back_eq : ∀ block∈front++back.tail,previous after block.start=previous memory block.start
  /-- Only headers of the remaining list are written. -/
  frame : ∀ x, (∀ block∈front++back,x<block.start ∨ block.start+sizeofFreeBlock≤x) →
    after x=memory x

/-- The list head moves on exactly when the removed block was the head. -/
theorem removeFromFreeList_freeList (heap : SubHeap) (block : ℕ) :
    (removeFromFreeList heap block).freeList=if block=heap.freeList then
      next (removeFromFreeList heap block).memory block else heap.freeList := by
  simp only [removeFromFreeList]

/-- `remove_from_free_list` sets a link in each neighbour of a block whose own
two links are right, and keeps those. -/
theorem removeFromFreeList_memory {heap : SubHeap} {front back : List Span} {block : Span}
    (hs : Spread (front++block::back)) (hz : ∀ other∈front++block::back,other.start≠0)
    (hn : next heap.memory block.start=headOr back 0)
    (hp : previous heap.memory block.start=lastOr front 0) :
    (removeFromFreeList heap block.start).memory=
        setLastNext (setHeadPrevious heap.memory back (lastOr front 0)) front (headOr back 0) ∧
      next (removeFromFreeList heap block.start).memory block.start=headOr back 0 := by
  obtain ⟨-,hbs,hfb⟩ := List.pairwise_append.mp hs
  obtain ⟨hback,-⟩ := List.pairwise_cons.mp hbs
  have hzf : ∀ first∈front,first.start≠0 := fun first hm => hz first (by simp [hm])
  have hzb : ∀ later∈back,later.start≠0 := fun later hm => hz later (by simp [hm])
  have hword : ∀ field, field<4 →
      word (setHeadPrevious heap.memory back (lastOr front 0)) block.start field=
        word heap.memory block.start field :=
    fun field hfield => word_setHeadPrevious hfield (fun other hm => Or.inl (hback other hm))
  have hp' : previous (setHeadPrevious heap.memory back (lastOr front 0)) block.start=
      lastOr front 0 := (hword 2 (by omega)).trans hp
  have hn' : next (setHeadPrevious heap.memory back (lastOr front 0)) block.start=
      headOr back 0 := (hword 3 (by omega)).trans hn
  have hmem : (removeFromFreeList heap block.start).memory=
      setLastNext (setHeadPrevious heap.memory back (lastOr front 0)) front (headOr back 0) := by
    simp only [removeFromFreeList,hn,hp,ite_headOr hzb,hp',hn',ite_lastOr hzf]
  refine ⟨hmem,?_⟩
  rw [hmem]
  refine (word_setLastNext (by omega) ?_).trans hn'
  exact fun other hm => Or.inr (hfb other hm block List.mem_cons_self)

/-- `remove_from_free_list` of a block whose two links are right. -/
theorem removeFromFreeList_spec {heap : SubHeap} {front back : List Span} {block : Span}
    (hs : Spread (front++block::back)) (hz : ∀ other∈front++block::back,other.start≠0)
    (hf : Linked heap.memory front block.start)
    (hn : next heap.memory block.start=headOr back 0) (hb : Linked heap.memory back 0)
    (hp : previous heap.memory block.start=lastOr front 0)
    (hh : heap.freeList=headOr front block.start) :
    RemoveSpec heap.memory (removeFromFreeList heap block.start).memory front back ∧
      (removeFromFreeList heap block.start).freeList=headOr (front++back) 0 := by
  obtain ⟨hfs,hbs,hfb⟩ := List.pairwise_append.mp hs
  obtain ⟨hback,hbs⟩ := List.pairwise_cons.mp hbs
  have hcross : ∀ first∈front,∀ later∈back,HeaderApart first.start later.start :=
    fun first hm later hl => Or.inl (hfb first hm later (List.mem_cons_of_mem _ hl))
  have hnlt : headOr back 0<2^64 := hn ▸ readLE_lt _ _ _
  have hplt : lastOr front 0<2^64 := hp ▸ readLE_lt _ _ _
  obtain ⟨hmem,hnext⟩ := removeFromFreeList_memory hs hz hn hp
  refine ⟨⟨?_,?_,?_,?_⟩,?_⟩
  · rw [hmem]
    refine (linked_append front back 0).mpr ⟨?_,?_⟩
    · exact linked_setLastNext_self hfs hnlt ((linked_setHeadPrevious hcross).mpr hf)
    · refine (linked_setLastNext ?_).mpr ((linked_setHeadPrevious_self hbs).mpr hb)
      exact fun first hm later hl => Or.symm (hcross first hm later hl)
  · rintro later rest rfl
    rw [hmem,previous_setLastNext (Or.inr ?_) hfs]
    · exact previous_setHeadPrevious hplt
    · exact fun first hm => Or.symm (hcross first hm later List.mem_cons_self)
  · intro other hm
    rw [hmem]
    rcases List.mem_append.mp hm with hm|hm
    · rw [previous_setLastNext (Or.inl hm) hfs]
      exact word_setHeadPrevious (by omega) (hcross other hm)
    · rw [previous_setLastNext (Or.inr ?_) hfs]
      · exact previous_setHeadPrevious_tail hbs other hm
      · exact fun first hf => Or.symm (hcross first hf other (List.mem_of_mem_tail hm))
  · intro x hx
    rw [hmem,setLastNext_frame (fun first hm => hx first (by simp [hm]))]
    exact setHeadPrevious_frame (fun later hm => hx later (by simp [hm]))
  · rw [removeFromFreeList_freeList,hnext,hh]
    cases front with
    | nil => exact if_pos rfl
    | cons first rest =>
      have hg := hfb first List.mem_cons_self block List.mem_cons_self
      refine if_neg ?_
      change ¬block.start=first.start
      unfold sizeofFreeBlock at hg
      omega

/-- Memory after an attempt to merge a block with its successor. -/
structure CoalesceSpec (memory after : Memory) (block : Span) (back : List Span) : Prop where
  /-- The list behind and including the block, merged where it touches. -/
  linked : Linked after (joinFront block back) 0
  /-- The block's own back link is untouched. -/
  previous_eq : previous after block.start=previous memory block.start
  /-- After a merge the next successor points back at the grown block. -/
  back_joined : ∀ later rest before, back=later::rest → block.stop=later.start →
    BackLinked memory rest before → BackLinked after rest block.start
  /-- Without a touching successor nothing is written. -/
  kept : (∀ later rest, back=later::rest → block.stop≠later.start) → after=memory
  /-- Only headers of the list are written. -/
  frame : ∀ x, (∀ other∈block::back,x<other.start ∨ other.start+sizeofFreeBlock≤x) →
    after x=memory x

/-- `can_coalesce_next` recognises exactly a touching successor. -/
theorem canCoalesceNext_iff {memory : Memory} {block later : Span} {rest : List Span}
    (hstop : block.stop≤later.start) (hlt : later.start<2^64) (hz : later.start≠0)
    (h : Linked memory (block::later::rest) 0) :
    canCoalesceNext memory block.start=true ↔ block.stop=later.start := by
  obtain ⟨-,hs,hn,-⟩ := h
  have hn' : next memory block.start=later.start := hn
  unfold Span.stop at *
  simp only [canCoalesceNext,hs,hn',decide_eq_true_eq,u64_of_lt (hstop.trans_lt hlt)]
  exact ⟨fun hc => hc.2.symm,fun he => ⟨hz,he.symm⟩⟩

/-- Memory after a block has taken in its successor: size and forward link are
stored, then the back link of the block behind both. -/
def mergedWithNext (memory : Memory) (block later : Span) (rest : List Span) : Memory :=
  setHeadPrevious (setWord (setWord memory block.start 1 (block.size+later.size))
    block.start 3 (headOr rest 0)) rest block.start

/-- `coalesce_with_next_block` merges a touching successor. -/
theorem coalesceWithNextBlock_touching {memory : Memory} {block later : Span} {rest : List Span}
    (hcan : canCoalesceNext memory block.start=true) (hz : ∀ other∈rest,other.start≠0)
    (hapart : HeaderApart later.start block.start) (h : Linked memory (block::later::rest) 0) :
    coalesceWithNextBlock memory block.start=mergedWithNext memory block later rest := by
  obtain ⟨-,hb,hn,-,hbl,hnl,-⟩ := h
  have hn' : next memory block.start=later.start := hn
  have hnlt : headOr rest 0<2^64 := hnl ▸ readLE_lt _ _ _
  have hg : next (setWord memory block.start 1 (block.size+later.size)) block.start=
      later.start := (word_setWord_ne _ _ _ (by omega)).trans hn'
  have hgl : next (setWord memory block.start 1 (block.size+later.size)) later.start=
      headOr rest 0 := (word_setWord_apart _ _ hapart (by omega) (by omega)).trans hnl
  have hnext : next (setWord (setWord memory block.start 1 (block.size+later.size))
      block.start 3 (headOr rest 0)) block.start=headOr rest 0 :=
    (word_setWord_self _ _ _ _).trans (u64_of_lt hnlt)
  simp only [coalesceWithNextBlock,hcan,if_true,hb,hn',hbl,hg,hgl,hnext,ite_headOr hz,mergedWithNext]

/-- Merging with a touching successor. -/
theorem mergedWithNext_spec {memory : Memory} {block later : Span} {rest : List Span}
    (hs : Spread (block::later::rest)) (hpos : block.start≠0) (hblt : block.start<2^64)
    (hstop : later.stop≤2^64) (ht : block.stop=later.start) (h : Linked memory (block::later::rest) 0) :
    CoalesceSpec memory (mergedWithNext memory block later rest) block (later::rest) := by
  obtain ⟨hc,-,-,-,-,hnl,hlr⟩ := h
  obtain ⟨hfirst,hspread⟩ := List.pairwise_cons.mp hs
  obtain ⟨-,hrest⟩ := List.pairwise_cons.mp hspread
  have hnlt : headOr rest 0<2^64 := hnl ▸ readLE_lt _ _ _
  have hcross : ∀ other∈rest,HeaderApart block.start other.start :=
    fun other hm => Or.inl (hfirst other (List.mem_cons_of_mem _ hm))
  have hbehind : ∀ other∈rest,HeaderApart other.start block.start :=
    fun other hm => Or.symm (hcross other hm)
  have hword : ∀ field, field<4 → word (mergedWithNext memory block later rest) block.start field=
      word (setWord (setWord memory block.start 1 (block.size+later.size)) block.start 3
        (headOr rest 0)) block.start field :=
    fun field hf => word_setHeadPrevious hf hcross
  refine ⟨?_,?_,?_,?_,?_⟩
  · rw [joinFront,if_pos ht]
    refine ⟨?_,?_,?_,(linked_setHeadPrevious_self hrest).mpr
      ((linked_setWord_twice (by omega) (by omega) hbehind).mpr hlr)⟩
    · refine (hword 0 (by omega)).trans ?_
      rw [word_setWord_ne _ _ _ (by omega),word_setWord_ne _ _ _ (by omega)]
      exact hc
    · refine (hword 1 (by omega)).trans ?_
      rw [word_setWord_ne _ _ _ (by omega),word_setWord_self]
      refine u64_of_lt ?_
      unfold Span.stop at *
      omega
    · refine (hword 3 (by omega)).trans ?_
      rw [word_setWord_self]
      exact u64_of_lt hnlt
  · refine (hword 2 (by omega)).trans ?_
    rw [word_setWord_ne _ _ _ (by omega),word_setWord_ne _ _ _ (by omega)]
    rfl
  · rintro later' rest' before he - hbl
    cases he
    cases rest with
    | nil => trivial
    | cons third others =>
      refine ⟨previous_setHeadPrevious hblt,(backLinked_congr ?_).mpr hbl.2⟩
      intro other hm
      have ha := hbehind other (List.mem_cons_of_mem _ hm)
      exact (previous_setHeadPrevious_tail hrest other hm).trans
        ((word_setWord_apart _ _ ha (by omega) (by omega)).trans
          (word_setWord_apart _ _ ha (by omega) (by omega)))
  · exact fun hno => absurd ht (hno later rest rfl)
  · intro x hx
    have hb := hx block List.mem_cons_self
    rw [mergedWithNext,setHeadPrevious_frame (fun other hm => hx other (by simp [hm])),
      setWord_frame _ _ hb (by omega),setWord_frame _ _ hb (by omega)]

/-- Where nothing can be merged, nothing happens. -/
theorem coalesceWithNextBlock_kept {memory : Memory} {block : Span} {back : List Span}
    (hcan : canCoalesceNext memory block.start=false)
    (hapart : ∀ later rest,back=later::rest → block.stop≠later.start)
    (h : Linked memory (block::back) 0) :
    CoalesceSpec memory (coalesceWithNextBlock memory block.start) block back := by
  have hmem : coalesceWithNextBlock memory block.start=memory := by
    simp only [coalesceWithNextBlock,hcan,Bool.false_eq_true,if_false]
  have hjoin : joinFront block back=block::back := by
    cases back with
    | nil => rfl
    | cons later rest => rw [joinFront,if_neg (hapart later rest rfl)]
  rw [hmem]
  refine ⟨?_,rfl,fun later rest _ he ht _ => absurd ht (hapart later rest he),fun _ => rfl,
    fun _ _ => rfl⟩
  rw [hjoin]
  exact h

/-- `coalesce_with_next_block` on a block of a free list. -/
theorem coalesceWithNextBlock_spec {memory : Memory} {block : Span} {back : List Span}
    (hs : Spread (block::back)) (hz : ∀ other∈block::back,other.start≠0)
    (hstop : ∀ other∈block::back,other.stop≤2^64)
    (hsize : ∀ other∈block::back,sizeofFreeBlock≤other.size)
    (hback : ∀ later∈back,block.stop≤later.start) (h : Linked memory (block::back) 0) :
    CoalesceSpec memory (coalesceWithNextBlock memory block.start) block back := by
  cases back with
  | nil =>
    have hno : canCoalesceNext memory block.start=false := by
      have hn : next memory block.start=0 := h.2.2.1
      simp [canCoalesceNext,hn]
    exact coalesceWithNextBlock_kept hno (fun _ _ he => absurd he.symm (List.cons_ne_nil _ _)) h
  | cons later rest =>
    have hzl := hz later (by simp)
    have hsl := hsize later (by simp)
    have htl := hstop later (by simp)
    have hle := hback later List.mem_cons_self
    have hllt : later.start<2^64 := by
      unfold Span.stop sizeofFreeBlock at *
      omega
    have hblt : block.start<2^64 := lt_of_le_of_lt ((Nat.le_add_right _ _).trans hle) hllt
    have hiff := canCoalesceNext_iff hle hllt hzl h
    by_cases ht : block.stop=later.start
    · have hapart : HeaderApart later.start block.start :=
        Or.inr ((List.pairwise_cons.mp hs).1 later List.mem_cons_self)
      rw [coalesceWithNextBlock_touching (hiff.mpr ht) (fun other hm => hz other (by simp [hm]))
        hapart h]
      exact mergedWithNext_spec hs (hz block List.mem_cons_self) hblt htl ht h
    · refine coalesceWithNextBlock_kept (Bool.eq_false_iff.mpr (fun hc => ht (hiff.mp hc))) ?_ h
      intro other others he
      cases he
      exact ht

/-- A cursor that is not the insertion point is passed. -/
theorem insertLoop_pass {memory : Memory} {block cursor : ℕ} (fuel : ℕ) (hz : cursor≠0)
    (h : ¬(cursor<block ∧ (next memory cursor=0 ∨ block<next memory cursor))) :
    insertLoop memory block (fuel+1) cursor=insertLoop memory block fuel (next memory cursor) := by
  rw [insertLoop,if_neg hz]
  dsimp only
  rw [if_neg h]

/-- At the insertion point three links are stored and the walk goes on. -/
theorem insertLoop_place {memory : Memory} {block cursor : ℕ} (fuel : ℕ) (hz : cursor≠0)
    (h : cursor<block ∧ (next memory cursor=0 ∨ block<next memory cursor)) :
    insertLoop memory block (fuel+1) cursor=
      insertLoop (setWord (setWord (setWord memory block 3 (next memory cursor)) block 2 cursor)
        cursor 3 block) block fuel (next (setWord (setWord (setWord memory block 3
          (next memory cursor)) block 2 cursor) cursor 3 block) cursor) := by
  rw [insertLoop,if_neg hz]
  dsimp only
  rw [if_pos h]

/-- Behind the insertion point the walk only reads. -/
theorem insertLoop_tail {memory : Memory} {block fuel : ℕ} {back : List Span}
    (hl : Linked memory back 0) (hb : ∀ later∈back,block≤later.start)
    (hz : ∀ later∈back,later.start≠0) (hf : back.length<fuel) :
    insertLoop memory block fuel (headOr back 0)=some memory := by
  induction back generalizing fuel with
  | nil =>
    cases fuel with
    | zero => cases hf
    | succ fuel =>
      rw [insertLoop]
      exact if_pos rfl
  | cons later rest ih =>
    cases fuel with
    | zero => cases hf
    | succ fuel =>
      obtain ⟨-,-,hn,hlr⟩ := hl
      obtain ⟨hbl,hbr⟩ := List.forall_mem_cons.mp hb
      obtain ⟨hzl,hzr⟩ := List.forall_mem_cons.mp hz
      have hno : ¬(later.start<block ∧
          (next memory later.start=0 ∨ block<next memory later.start)) := by omega
      change insertLoop memory block (fuel+1) later.start=some memory
      rw [insertLoop_pass fuel hzl hno,hn]
      exact ih hlr hbr hzr (by simpa using hf)

/-- Before the insertion point the walk only reads. -/
theorem insertLoop_front {memory : Memory} {block fuel tail : ℕ} {front : List Span}
    (hl : Linked memory front tail) (hb : ∀ first∈front,first.start≤block) (ht : tail≤block)
    (hz : ∀ first∈front,first.start≠0) (htz : tail≠0) :
    insertLoop memory block (front.length+fuel) (headOr front tail)=
      insertLoop memory block fuel tail := by
  induction front with
  | nil =>
    rw [List.length_nil,Nat.zero_add]
    rfl
  | cons first rest ih =>
    obtain ⟨-,-,hn,hlr⟩ := hl
    obtain ⟨-,hbr⟩ := List.forall_mem_cons.mp hb
    obtain ⟨hzf,hzr⟩ := List.forall_mem_cons.mp hz
    have hno : ¬(first.start<block ∧
        (next memory first.start=0 ∨ block<next memory first.start)) := by
      rw [hn]
      cases rest with
      | nil => exact fun hc => hc.2.elim htz (fun hlt => absurd ht (Nat.not_le.mpr hlt))
      | cons later rest =>
        have hle := hbr later List.mem_cons_self
        have hnz := hzr later List.mem_cons_self
        exact fun hc => hc.2.elim hnz (fun hlt => absurd hle (Nat.not_le.mpr hlt))
    rw [List.length_cons,show rest.length+1+fuel=rest.length+fuel+1 by omega]
    change insertLoop memory block (rest.length+fuel+1) first.start=_
    rw [insertLoop_pass _ hzf hno,hn]
    exact ih hlr hbr hzr

/-- Memory after the three stores of an insertion behind `front`. -/
def insertedBehind (memory : Memory) (block : ℕ) (front back : List Span) : Memory :=
  setLastNext (setWord (setWord memory block 3 (headOr back 0)) block 2 (lastOr front 0))
    front block

/-- An insertion behind `front` leaves all later back links as they were. -/
theorem insertedBehind_previous {memory : Memory} {block : Span} {front back : List Span}
    (hfs : Spread front)
    (hfb : ∀ first∈front,∀ later∈block::back,first.start+sizeofFreeBlock≤later.start)
    (hback : ∀ later∈back,block.start+sizeofFreeBlock≤later.start) :
    ∀ later∈back,previous (insertedBehind memory block.start front back) later.start=
      previous memory later.start := by
  intro later hm
  have ha : HeaderApart later.start block.start := Or.inr (hback later hm)
  refine (previous_setLastNext (Or.inr (fun first hf => Or.inr
    (hfb first hf later (List.mem_cons_of_mem _ hm)))) hfs).trans ?_
  exact (word_setWord_apart _ _ ha (by omega) (by omega)).trans
    (word_setWord_apart _ _ ha (by omega) (by omega))

/-- The inserted block and the blocks after it form a list. -/
theorem insertedBehind_linked_new {memory : Memory} {block : Span} {front back : List Span}
    (hs : Spread (front++block::back)) (hc : canary memory block.start=freeCanary)
    (hb : blockSize memory block.start=block.size) (hnlt : headOr back 0<2^64)
    (hlb : Linked memory back 0) :
    Linked (insertedBehind memory block.start front back) (block::back) 0 := by
  obtain ⟨-,hbs,hfb⟩ := List.pairwise_append.mp hs
  obtain ⟨hback,-⟩ := List.pairwise_cons.mp hbs
  have hw : ∀ field, field<4 →
      word (insertedBehind memory block.start front back) block.start field=
        word (setWord (setWord memory block.start 3 (headOr back 0)) block.start 2
          (lastOr front 0)) block.start field :=
    fun field hfield => word_setLastNext hfield
      (fun first hm => Or.inr (hfb first hm block List.mem_cons_self))
  refine ⟨?_,?_,?_,?_⟩
  · refine (hw 0 (by omega)).trans ?_
    rw [word_setWord_ne _ _ _ (by omega),word_setWord_ne _ _ _ (by omega)]
    exact hc
  · refine (hw 1 (by omega)).trans ?_
    rw [word_setWord_ne _ _ _ (by omega),word_setWord_ne _ _ _ (by omega)]
    exact hb
  · refine (hw 3 (by omega)).trans ?_
    rw [word_setWord_ne _ _ _ (by omega),word_setWord_self]
    exact u64_of_lt hnlt
  · refine (linked_setLastNext ?_).mpr ?_
    · exact fun first hm later hm' => Or.inr (hfb first hm later (List.mem_cons_of_mem _ hm'))
    · exact (linked_setWord_twice (by omega) (by omega)
        (fun later hm => Or.inr (hback later hm))).mpr hlb

/-- The blocks before it now lead to it. -/
theorem insertedBehind_linked_front {memory : Memory} {block : Span} {front back : List Span}
    (hs : Spread (front++block::back)) (hlt : block.start<2^64)
    (hlf : Linked memory front (headOr back 0)) :
    Linked (insertedBehind memory block.start front back) front block.start := by
  obtain ⟨hfs,-,hfb⟩ := List.pairwise_append.mp hs
  refine linked_setLastNext_self hfs hlt ((linked_setWord_twice (by omega) (by omega) ?_).mpr hlf)
  exact fun first hm => Or.inl (hfb first hm block List.mem_cons_self)

/-- With a last block in front, the insertion is three stores. -/
theorem insertedBehind_append {memory : Memory} {block : ℕ} {init back : List Span} {last : Span}
    (hnext : next memory last.start=headOr back 0) :
    insertedBehind memory block (init++[last]) back=
      setWord (setWord (setWord memory block 3 (next memory last.start)) block 2 last.start)
        last.start 3 block := by
  unfold insertedBehind
  rw [hnext,lastOr_append]
  cases init with
  | nil => rfl
  | cons first rest =>
    change setWord _ (lastOr (rest++[last]) first.start) 3 _=_
    rw [lastOr_append]
    rfl

/-- The walk inserts the block between the blocks before and after it. -/
theorem insertLoop_spec {memory : Memory} {block : Span} {front back : List Span} {fuel : ℕ}
    (hs : Spread (front++block::back)) (hz : ∀ other∈front++block::back,other.start≠0)
    (hlt : block.start<2^64) (hne : front≠[]) (hc : canary memory block.start=freeCanary)
    (hb : blockSize memory block.start=block.size) (hl : Linked memory (front++back) 0)
    (hf : front.length+back.length+1<fuel) :
    insertLoop memory block.start fuel (headOr (front++back) 0)=
        some (insertedBehind memory block.start front back) ∧
      Linked (insertedBehind memory block.start front back) (front++block::back) 0 := by
  obtain ⟨-,hbs,hfb⟩ := List.pairwise_append.mp hs
  obtain ⟨hback,-⟩ := List.pairwise_cons.mp hbs
  obtain ⟨hlf,hlb⟩ := (linked_append front back 0).mp hl
  have hnew := insertedBehind_linked_new hs hc hb (tail_lt hne hlf) hlb
  have hfront := insertedBehind_linked_front hs hlt hlf
  refine ⟨?_,(linked_append front (block::back) 0).mpr ⟨hfront,hnew⟩⟩
  -- walk over all of the front but its last block, place, and walk on
  obtain ⟨init,last,rfl⟩ : ∃ init last,front=init++[last] :=
    ⟨front.dropLast,front.getLast hne,(List.dropLast_append_getLast hne).symm⟩
  have hlast : last.start+sizeofFreeBlock≤block.start :=
    hfb last (by simp) block List.mem_cons_self
  have hzlast : last.start≠0 := hz last (by simp)
  obtain ⟨hli,hll⟩ := (linked_append init [last] _).mp hlf
  replace hli : Linked memory init last.start := hli
  have hnext : next memory last.start=headOr back 0 := hll.2.2.1
  have hplace : last.start<block.start ∧
      (next memory last.start=0 ∨ block.start<next memory last.start) := by
    unfold sizeofFreeBlock at hlast
    refine ⟨by omega,?_⟩
    rw [hnext]
    cases back with
    | nil => exact Or.inl rfl
    | cons later rest =>
      have hg := hback later List.mem_cons_self
      unfold sizeofFreeBlock at hg
      exact Or.inr (by change block.start<later.start; omega)
  have hmem : insertedBehind memory block.start (init++[last]) back=_ :=
    insertedBehind_append hnext
  obtain ⟨more,rfl⟩ : ∃ more,fuel=init.length+(more+1) :=
    ⟨fuel-init.length-1,by simp only [List.length_append,List.length_singleton] at hf; omega⟩
  have hhead : headOr (init++[last]++back) 0=headOr init last.start := by
    rw [List.append_assoc,headOr_append]
    rfl
  have hinit : ∀ first∈init,first.start≤block.start := fun first hm =>
    (Nat.le_add_right _ _).trans (hfb first (by simp [hm]) block List.mem_cons_self)
  rw [hhead,insertLoop_front hli hinit (by unfold sizeofFreeBlock at hlast; omega)
    (fun first hm => hz first (by simp [hm])) hzlast,insertLoop_place more hzlast hplace,← hmem]
  have hcont : next (insertedBehind memory block.start (init++[last]) back) last.start=
      block.start := by
    rw [hmem]
    exact (word_setWord_self _ _ _ _).trans (u64_of_lt hlt)
  rw [hcont]
  refine insertLoop_tail hnew ?_ (fun later hm => hz later (by simp [List.mem_cons.mp hm])) ?_
  · refine List.forall_mem_cons.mpr ⟨le_rfl,fun later hm => ?_⟩
    exact (Nat.le_add_right _ _).trans (hback later hm)
  · simp only [List.length_append,List.length_cons] at hf ⊢
    omega

end WorkbenchOS.KmallocFreeList
