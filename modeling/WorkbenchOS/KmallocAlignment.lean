import WorkbenchOS.KmallocRuns

/-!
# Alignment of headers and payloads

Every header of the sub-heap lies behind all requests carved off before it.
`ALLOC_BLOCK_SIZE` is defined for rounding requests but never used, and
`split_if_required` puts the remaining block's header right behind the
requested bytes. With page-aligned storage, headers and payloads stay aligned
exactly as long as no block is split at a size that is not a multiple of
eight; merges only keep starts that were there before.
-/

namespace WorkbenchOS.KmallocAlignment

open ByteMemory LibStd SpanLists KmallocSubHeap KmallocFreeList KmallocOperations KmallocRuns
  TransitionRuns

/-- Alignment of the header types, whose fields are 64-bit integers and
pointers. -/
def headerAlignment : ℕ := 8

/-- Bytes of a page. -/
def pageSize : ℕ := 0x1000

/-- Free headers, allocated headers and payloads are aligned. A header that
an operation places is on the free list or live when the operation returns,
or stands where a live header stood before. -/
structure HeadersAligned (state : HeapState) : Prop where
  /-- Headers of free blocks. -/
  free : ∀ block∈freeBlocks state.heap,block.start%headerAlignment=0
  /-- Headers of allocated blocks. -/
  allocated : ∀ held∈state.live,held.header%headerAlignment=0
  /-- Payload pointers. -/
  payload : ∀ held∈state.live,held.address%headerAlignment=0

/-- The block first fit selects is not split, or is split at a multiple of the
alignment. -/
def SplitsAligned (state : HeapState) : HeapAction→Prop
  | .allocate size => IfChosen (fun _ block _ =>
      giveBack (roundedSize size) block=[] ∨ roundedSize size%headerAlignment=0)
        (chosen state size)
  | .free _ => True
  | .store .. => True

instance (state : HeapState) : DecidablePred (SplitsAligned state)
  | .allocate _ => inferInstanceAs (Decidable (IfChosen _ _))
  | .free _ => isTrue trivial
  | .store .. => isTrue trivial

/-- What the runs below keep: a represented list with aligned headers. -/
def AlignedList (state : HeapState) : Prop :=
  Represents state (freeBlocks state.heap) ∧ HeadersAligned state

/-- An aligned header makes an aligned payload. -/
theorem payload_aligned {x : ℕ} (h : x%headerAlignment=0) :
    (x+sizeofAllocatedBlock)%headerAlignment=0 := by
  unfold headerAlignment sizeofAllocatedBlock at *
  omega

/-- What a split gives back starts aligned exactly when the split does. -/
theorem giveBack_aligned {request : ℕ} {block part : Span} (h : block.start%headerAlignment=0)
    (hm : part∈giveBack request block) :
    part.start%headerAlignment=0 ↔ request%headerAlignment=0 := by
  have hw := (giveBack_within hm).1
  unfold headerAlignment sizeofAllocatedBlock at *
  omega

/-- Releasing an aligned span keeps all starts aligned. -/
theorem release_aligned {span : Span} {spans : List Span} (h : span.start%headerAlignment=0)
    (hl : ∀ next∈spans,next.start%headerAlignment=0) :
    ∀ next∈release span spans,next.start%headerAlignment=0 := by
  have hr : ∀ next∈release span spans,
      (fun next : Span => next.start%headerAlignment=0) next :=
    forall_release (fun _ _ hf _ _ => hf) h hl
  exact hr

/-- An allocation keeps the alignment exactly when it splits aligned. -/
theorem alignedList_allocate {state next : HeapState} {size : ℕ} (h : AlignedList state)
    (hc : ChosenBackLinked state (.allocate size)) (hs : step state (.allocate size)=some next) :
    HeadersAligned next ↔ SplitsAligned state (.allocate size) := by
  obtain ⟨hr,ha⟩ := h
  have hlink : IfChosen _ (chosen state size) := hc
  change HeadersAligned next ↔ IfChosen _ (chosen state size)
  cases hfit : chosen state size with
  | none =>
    cases Option.some.inj ((hr.allocate_full (firstFit_eq_none hfit)).symm.trans hs)
    exact iff_of_true ha trivial
  | some found =>
    obtain ⟨front,block,back⟩ := found
    rw [hfit] at hlink
    obtain ⟨hlist,hblock,hn⟩ := firstFit_eq_some hfit
    have hfree := ha.free
    rw [hlist] at hr hfree
    obtain ⟨next',hstep,hlive,-,hnext⟩ := hr.allocate_take hblock hn hlink
    cases Option.some.inj (hstep.symm.trans hs)
    have hstart := hfree block (by simp)
    change _ ↔ giveBack (roundedSize size) block=[] ∨ roundedSize size%headerAlignment=0
    constructor
    · intro hafter
      cases hg : giveBack (roundedSize size) block with
      | nil => exact Or.inl rfl
      | cons part parts =>
        have hm : part∈giveBack (roundedSize size) block := hg ▸ List.mem_cons_self
        have hpart := hafter.free
        rw [hnext.freeBlocks_eq] at hpart
        exact Or.inr ((giveBack_aligned hstart hm).mp (hpart part (by simp [hm])))
    · intro hor
      have hheader : (Allocation.header ⟨block.start+sizeofAllocatedBlock,size⟩)=block.start :=
        Nat.add_sub_cancel _ _
      refine ⟨?_,?_,?_⟩
      · rw [hnext.freeBlocks_eq]
        intro other hm
        rcases List.mem_append.mp hm with hf|hm
        · exact hfree other (List.mem_append_left _ hf)
        · rcases List.mem_append.mp hm with hp|hb
          · have hsize := hor.resolve_left (List.ne_nil_of_mem hp)
            exact (giveBack_aligned hstart hp).mpr hsize
          · exact hfree other (by simp [hb])
      · rw [hlive]
        refine List.forall_mem_cons.mpr ⟨?_,ha.allocated⟩
        rw [hheader]
        exact hstart
      · rw [hlive]
        exact List.forall_mem_cons.mpr ⟨payload_aligned hstart,ha.payload⟩

/-- A free keeps the alignment. -/
theorem alignedList_free {state next : HeapState} {address : ℕ} (h : AlignedList state)
    (hl : Legal state (.free address)) (hs : step state (.free address)=some next) :
    HeadersAligned next := by
  obtain ⟨hr,ha⟩ := h
  obtain ⟨held,before,behind,_,_,next',hlive,-,-,-,hstep,hlive',-,-,hnext⟩ := hr.free_held hl
  cases Option.some.inj (hstep.symm.trans hs)
  have hkept : ∀ other∈next.live,other∈state.live := by
    intro other hm
    rw [hlive'] at hm
    rw [hlive]
    simp only [List.mem_append,List.mem_cons] at hm ⊢
    tauto
  refine ⟨?_,fun other hm => ha.allocated other (hkept other hm),
    fun other hm => ha.payload other (hkept other hm)⟩
  rw [hnext.freeBlocks_eq]
  exact release_aligned (ha.allocated held (by rw [hlive]; simp)) ha.free

/-- A client action that returns with every chosen block linked back keeps
the alignment exactly when it splits aligned. -/
theorem alignedList_step {state next : HeapState} {action : HeapAction} (h : AlignedList state)
    (hl : Legal state action ∧ ChosenBackLinked state action) (hs : step state action=some next) :
    HeadersAligned next ↔ SplitsAligned state action := by
  cases action with
  | allocate size => exact alignedList_allocate h hl.2 hs
  | free address => exact iff_of_true (alignedList_free h hl.1 hs) trivial
  | store address offset value =>
    obtain ⟨next',hstep,hlive,-,hnext⟩ := h.1.store_held hl.1
    cases Option.some.inj (hstep.symm.trans hs)
    refine iff_of_true ⟨?_,?_,?_⟩ trivial
    · rw [hnext.freeBlocks_eq]
      exact h.2.free
    · rw [hlive]
      exact h.2.allocated
    · rw [hlive]
      exact h.2.payload

/-- In page-aligned storage, along every run in which each selected block is
linked back to its predecessor, all headers and payloads stay aligned exactly
when no block is split at a size that is not a multiple of eight. -/
theorem headers_aligned_iff (memory : Memory) {storage : ℕ} (hs : 0<storage)
    (hstop : storage+subHeapSize≤2^64) (hpage : storage%pageSize=0) {actions : List HeapAction}
    (hlegal : Each step Legal (initial memory storage) actions)
    (hlinked : Each step ChosenBackLinked (initial memory storage) actions) :
    Always step HeadersAligned (initial memory storage) actions ↔
      Each step SplitsAligned (initial memory storage) actions := by
  have hr := represents_initial memory hs hstop
  have hinit : AlignedList (initial memory storage) := by
    refine ⟨(fullyLinked_initial memory hs hstop).1,?_,?_,?_⟩
    · rw [hr.freeBlocks_eq]
      intro block hm
      cases List.mem_singleton.mp hm
      unfold pageSize at hpage
      unfold headerAlignment
      dsimp only
      omega
    all_goals
      intro held hm
      cases hm
  refine always_iff_each (fun _ h => h.2) ?_ ?_ hinit (hlegal.and hlinked)
  · intro state action h hl hc
    obtain ⟨next,hstep,hnext⟩ := represents_step state action h.1 hl
    exact ⟨next,hstep,hnext,(alignedList_step h hl hstep).mpr hc⟩
  · intro state action h hl hc next hstep ha
    exact hc ((alignedList_step h hl hstep).mp ha)

/-- Sizes that are multiples of eight, and one below the least payload. -/
theorem headers_aligned_sample :
    Each step SplitsAligned sample [.allocate 40,.allocate 1,.allocate 64,.free 0x1010,
        .allocate 8] ∧
      Always step HeadersAligned sample [.allocate 40,.allocate 1,.allocate 64,.free 0x1010,
        .allocate 8] := by
  have hsplits : Each step SplitsAligned sample [.allocate 40,.allocate 1,.allocate 64,
    .free 0x1010,.allocate 8] := by decide +kernel
  refine ⟨hsplits,?_⟩
  exact (headers_aligned_iff (fun _ => 0) (by decide) (by decide) (by decide) (by decide +kernel)
    (by decide +kernel)).mpr hsplits

/-- A request for 33 bytes puts the next block's header, and the payload of
the next allocation, at odd addresses. -/
theorem headers_not_always_aligned : ¬∀ (memory : Memory) (storage : ℕ)
    (actions : List HeapAction), 0<storage → storage+subHeapSize≤2^64 → storage%pageSize=0 →
    Each step Legal (initial memory storage) actions →
    Always step HeadersAligned (initial memory storage) actions := by
  intro h
  have ha := h (fun _ => 0) 0x1000 [.allocate 33,.allocate 64] (by decide) (by decide) (by decide)
    (by decide +kernel)
  obtain ⟨last,hlast,hpayload⟩ := (ha.imp (fun _ hc => hc.payload)).final
  have hodd : (run step (initial (fun _ => 0) 0x1000) [.allocate 33,.allocate 64]).map
      (fun state => decide (∀ held∈state.live,held.address%headerAlignment=0))=some false := by
    decide +kernel
  rw [hlast,Option.map_some,Option.some.injEq,decide_eq_false_iff_not] at hodd
  exact hodd hpayload

end WorkbenchOS.KmallocAlignment
