import WorkbenchOS.SlabAllocator

/-!
# The end of a slab page's free list

`SlabPage` has two views of how many objects are left, a counter and a chain
of free objects. `Slab::allocate` asks the counter, `SlabPage::allocate` looks
for the null at the end of the chain. There is none: the loop that builds the
chain links its last object to the address behind it, so the chain of a page
always goes on where the counter has come to zero.
-/

namespace WorkbenchOS.SlabExhaustion

open ByteMemory LibStd SlabAllocator TransitionRuns

/-- The chain from `head` visits the nodes in turn and then leads to `tail`. -/
def ChainTo (memory : Memory) (tail : ℕ) : ℕ→List ℕ→Prop
  | head,[] => head=tail
  | head,node::rest => head=node ∧ ChainTo memory tail (word memory node) rest

/-- List and counter run out together: the chain reaches null after as many
object slots as the counter says, an allocation fails exactly at zero, and one
that succeeds counts down. -/
structure ExhaustedTogether (page size : ℕ) (memory : Memory) : Prop where
  /-- The chain is null-terminated and as long as the counter says. -/
  chain : ∃ nodes,ChainTo memory 0 (freeList memory page) nodes ∧
    nodes.length=freeObjects memory page ∧ ∀ node∈nodes,node∈slots page size
  /-- `SlabPage::allocate` fails exactly when nothing is counted. -/
  fails : (∃ error,(allocatePage memory page).1=.error error) ↔ freeObjects memory page=0
  /-- The counter does not wrap. -/
  counts : ∀ object,(allocatePage memory page).1=.ok object →
    freeObjects (allocatePage memory page).2 page+1=freeObjects memory page

/-- A page with the objects its clients hold. -/
structure PageState where
  /-- The memory. -/
  memory : Memory
  /-- Addresses of the live objects, the latest first. -/
  live : List ℕ

/-- Calls of the page. -/
inductive PageAction where
  /-- `allocate()`. -/
  | allocate
  /-- `free(address)`. -/
  | free (address : ℕ)
  deriving DecidableEq

/-- One call. -/
def pageStep (page : ℕ) (state : PageState) : PageAction→Option PageState
  | .allocate => some (match allocatePage state.memory page with
    | (.ok address,memory) => ⟨memory,address::state.live⟩
    | (.error _,memory) => ⟨memory,state.live⟩)
  | .free address => some ⟨freeIntoPage state.memory page address,state.live.erase address⟩

/-- Only live objects are freed. -/
def PageLegal (state : PageState) : PageAction→Prop
  | .allocate => True
  | .free address => address∈state.live

/-- The calls of a slab: besides, `allocate` is only called on a page with
free objects. -/
def Counted (page : ℕ) (state : PageState) : PageAction→Prop
  | .allocate => hasFreeObjects state.memory page=true
  | .free address => address∈state.live

instance (state : PageState) : DecidablePred (PageLegal state)
  | .allocate => isTrue trivial
  | .free _ => inferInstanceAs (Decidable (_∈_))

instance (page : ℕ) (state : PageState) : DecidablePred (Counted page state)
  | .allocate => inferInstanceAs (Decidable (_=_))
  | .free _ => inferInstanceAs (Decidable (_∈_))

/-- A page right after `SlabPage::initialise`. -/
def freshPage (memory : Memory) (page size : ℕ) : PageState :=
  ⟨initialisePage memory page size,[]⟩

/-- Behind the counted objects the chain of a page goes on to the address
behind its last slot. -/
structure Unterminated (page size : ℕ) (memory : Memory) (free live : List ℕ) : Prop where
  /-- `m_free_objects` counts the free objects. -/
  free_eq : freeObjects memory page=free.length
  /-- The chain through them does not end there. -/
  chain : ChainTo memory (slot page size (objectCount size)) (freeList memory page) free
  /-- Every object is free or live, and none is both. -/
  split : (free++live).Perm (slots page size)

/-- What the open end of the chain does to the calls of a page. -/
structure Overruns (page size : ℕ) (memory : Memory) : Prop where
  /-- The two views differ. -/
  differ : ¬ExhaustedTogether page size memory
  /-- With nothing counted, the address behind the last object is returned and
  the counter wraps. -/
  overrun : freeObjects memory page=0 →
    (allocatePage memory page).1=.ok (slot page size (objectCount size)) ∧
      freeObjects (allocatePage memory page).2 page=2^64-1

section Chains

variable {memory after : Memory} {tail other head page size : ℕ} {nodes others : List ℕ}

/-- Unchanged links keep the chain. -/
theorem chainTo_congr (h : ∀ node∈nodes,word after node=word memory node)
    (hc : ChainTo memory tail head nodes) : ChainTo after tail head nodes := by
  induction nodes generalizing head with
  | nil => exact hc
  | cons node rest ih =>
    refine ⟨hc.1,?_⟩
    rw [h node List.mem_cons_self]
    exact ih (fun later hm => h later (List.mem_cons_of_mem _ hm)) hc.2

/-- After the same number of links a chain is at one place only. -/
theorem chainTo_unique (hfirst : ChainTo memory tail head nodes)
    (hsecond : ChainTo memory other head others) (hl : others.length=nodes.length) :
    other=tail := by
  induction nodes generalizing head others with
  | nil =>
    cases List.eq_nil_of_length_eq_zero hl
    exact hsecond.symm.trans hfirst
  | cons node rest ih =>
    cases others with
    | nil => cases hl
    | cons first more =>
      have hsame : first=node := hsecond.1.symm.trans hfirst.1
      subst hsame
      exact ih hfirst.2 hsecond.2 (Nat.succ.inj hl)

/-- Objects linked in order lead to the place behind them. -/
theorem chainTo_range {i n : ℕ}
    (h : ∀ j, i≤j → j< i+n → word memory (slot page size j)=slot page size (j+1)) :
    ChainTo memory (slot page size (i+n)) (slot page size i)
      ((List.range' i n).map (slot page size)) := by
  induction n generalizing i with
  | zero => rfl
  | succ n ih =>
    rw [List.range'_succ,List.map_cons]
    refine ⟨rfl,?_⟩
    rw [h i le_rfl (by omega),show i+(n+1)=i+1+n by omega]
    exact ih (fun j hj hlt => h j (by omega) (by omega))

end Chains

section Page

variable {memory : Memory} {page size : ℕ} {free live : List ℕ}

/-- All objects of a fresh page are free, and the chain does not end. -/
theorem unterminated_fresh (memory : Memory) (hge : 8≤ size) (hle : size≤0x1000-48)
    (hpage : page+0x1000<2^64) :
    Unterminated page size (initialisePage memory page size) (slots page size) [] := by
  obtain ⟨-,hcount,-,hhead,hlinks⟩ := initialisePage_spec memory hge hle hpage
  refine ⟨hcount.trans length_slots.symm,?_,by rw [List.append_nil]⟩
  · rw [hhead]
    unfold slots
    rw [List.range_eq_range']
    have hchain := @chainTo_range (initialisePage memory page size) page size 0 (objectCount size)
      (fun j _ hj => hlinks j (by omega))
    rwa [Nat.zero_add] at hchain

namespace Unterminated

/-- Objects of the page are behind its header. -/
theorem bounds (h : Unterminated page size memory free live) {object : ℕ}
    (ho : object∈free++live) : page+48≤object ∧ object+size≤page+0x1000 :=
  slots_bounds (h.split.mem_iff.mp ho)

/-- The list is never empty, as far as the code can see. -/
theorem freeList_ne (h : Unterminated page size memory free live) : freeList memory page≠0 := by
  have hc := h.chain
  cases free with
  | nil =>
    have hend : freeList memory page=slot page size (objectCount size) := hc
    unfold slot at hend
    omega
  | cons object rest =>
    have hhead : freeList memory page=object := hc.1
    have hb := h.bounds (List.mem_append_left live (List.mem_cons_self))
    omega

/-- With nothing left, the list leads behind the last object. -/
theorem overrun (h : Unterminated page size memory free live)
    (hz : freeObjects memory page=0) :
    (allocatePage memory page).1=.ok (slot page size (objectCount size)) ∧
      freeObjects (allocatePage memory page).2 page=2^64-1 := by
  have hnil : free=[] := List.eq_nil_of_length_eq_zero (h.free_eq.symm.trans hz)
  subst hnil
  have hend : freeList memory page=slot page size (objectCount size) := h.chain
  obtain ⟨after,he,-,hless,-⟩ := allocatePage_words h.freeList_ne
  rw [hz] at hless
  rw [he,← hend]
  exact ⟨rfl,hless⟩

/-- The counted nodes of such a page are not followed by null. -/
theorem overruns (h : Unterminated page size memory free live) : Overruns page size memory := by
  refine ⟨?_,h.overrun⟩
  intro hboth
  obtain ⟨nodes,hchain,hlength,-⟩ := hboth.chain
  have hend := chainTo_unique h.chain hchain (hlength.trans h.free_eq)
  unfold slot at hend
  omega

/-- Allocating the first of the counted objects. -/
theorem taken {object : ℕ} {rest : List ℕ}
    (h : Unterminated page size memory (object::rest) live) :
    ∃ after,allocatePage memory page=(.ok object,after) ∧
      Unterminated page size after rest (object::live) := by
  have hlist : freeList memory page=object := h.chain.1
  have hcount := h.free_eq
  rw [List.length_cons] at hcount
  have hlt : freeObjects memory page<2^64 := readLE_lt _ _ _
  obtain ⟨after,he,hhead,hless,hwords⟩ := allocatePage_words h.freeList_ne
  rw [hcount,u64Sub_of_le (by omega) (by omega),Nat.add_sub_cancel] at hless
  rw [hlist] at he hhead
  refine ⟨after,he,hless,?_,List.perm_middle.trans h.split⟩
  rw [hhead]
  refine chainTo_congr (fun node hm => ?_) h.chain.2
  have hb := h.bounds (List.mem_append_left live (List.mem_cons_of_mem object hm))
  exact hwords node (by omega) (by omega)

/-- Freeing a live object. -/
theorem givenBack {object : ℕ} (hge : 8≤ size) (hpage : page+0x1000<2^64)
    (h : Unterminated page size memory free live) (ho : object∈live) :
    Unterminated page size (freeIntoPage memory page object) (object::free)
      (live.erase object) := by
  have hb := h.bounds (List.mem_append_right free ho)
  have hbehind : page+48≤object := hb.1
  have hnodup : (free++live).Nodup := h.split.nodup_iff.mpr (nodup_slots hge)
  have hlength := h.split.length_eq.trans_le length_slots_le
  rw [List.length_append] at hlength
  obtain ⟨hlist,hlink,hcount,hwords⟩ := @freeIntoPage_words memory page object hbehind (by omega)
  refine ⟨?_,⟨hlist,?_⟩,(perm_givenBack ho).trans h.split⟩
  · rw [hcount,h.free_eq,List.length_cons,u64_of_lt (by omega)]
  · rw [hlink]
    refine chainTo_congr (fun node hm => ?_) h.chain
    have hne : node≠object := fun he =>
      List.disjoint_of_nodup_append hnodup hm (he ▸ ho)
    have hapart := slots_apart (h.split.mem_iff.mp (List.mem_append_left live hm))
      (h.split.mem_iff.mp (List.mem_append_right free ho)) hne
    have hnode := h.bounds (List.mem_append_left live hm)
    exact hwords node (by omega) (by omega) (by omega)

end Unterminated

end Page

section Runs

variable {page size : ℕ}

/-- The calls of a slab keep the chain of its page open. -/
theorem unterminated_step (hge : 8≤ size) (hpage : page+0x1000<2^64) (state : PageState)
    (action : PageAction) (h : ∃ free,Unterminated page size state.memory free state.live)
    (hl : Counted page state action) : ∃ next,pageStep page state action=some next ∧
      ∃ free,Unterminated page size next.memory free next.live := by
  obtain ⟨free,hu⟩ := h
  cases action with
  | allocate =>
    have hpos : hasFreeObjects state.memory page=true := hl
    rw [hasFreeObjects,decide_eq_true_eq,hu.free_eq] at hpos
    cases free with
    | nil => cases hpos
    | cons object rest =>
      obtain ⟨after,he,hafter⟩ := hu.taken
      exact ⟨⟨after,object::state.live⟩,by rw [pageStep,he],rest,hafter⟩
  | free address => exact ⟨_,rfl,address::free,hu.givenBack hge hpage hl⟩

/-- List and counter of a slab page never run out together: whatever is called
on a fresh page, they differ from the beginning, and as long as a slab calls
they differ in every state and the page hands out the address behind its last
object once the counter is zero. -/
theorem freeList_never_terminated (hge : 8≤ size) (hle : size≤0x1000-48)
    (hpage : page+0x1000<2^64) (memory : Memory) (actions : List PageAction) :
    ¬Always (pageStep page) (fun state => ExhaustedTogether page size state.memory)
      (freshPage memory page size) actions ∧
    (Each (pageStep page) (Counted page) (freshPage memory page size) actions →
      Always (pageStep page) (fun state => Overruns page size state.memory)
        (freshPage memory page size) actions) := by
  have hfresh := unterminated_fresh memory hge hle hpage
  refine ⟨fun hall => hfresh.overruns.differ hall.head,fun hcounted => ?_⟩
  refine (always_of_each (unterminated_step hge hpage) ⟨_,hfresh⟩ hcounted).imp ?_
  rintro state ⟨free,hu⟩
  exact hu.overruns

/-- Two objects of 2000 bytes, both allocated and one given back. -/
theorem freeList_never_terminated_pair :
    ¬Always (pageStep 0x2000) (fun state => ExhaustedTogether 0x2000 2000 state.memory)
      (freshPage (fun _ => 0) 0x2000 2000) [.allocate,.allocate,.free 0x2030] ∧
    Always (pageStep 0x2000) (fun state => Overruns 0x2000 2000 state.memory)
      (freshPage (fun _ => 0) 0x2000 2000) [.allocate,.allocate,.free 0x2030] := by
  obtain ⟨hnever,hoverruns⟩ := @freeList_never_terminated 0x2000 2000 (by decide) (by decide)
    (by decide) (fun _ => 0) [.allocate,.allocate,.free 0x2030]
  exact ⟨hnever,hoverruns (by decide +kernel)⟩

/-- Once both objects are allocated, a third call returns the address behind
them. -/
theorem freeList_not_always_terminated : ¬∀ page size memory actions, 8≤ size → size≤0x1000-48 →
    page+0x1000<2^64 → Each (pageStep page) PageLegal (freshPage memory page size) actions →
      Always (pageStep page) (fun state => ExhaustedTogether page size state.memory)
        (freshPage memory page size) actions := by
  intro h
  obtain ⟨last,hrun,hlast⟩ := (h 0x2000 2000 (fun _ => 0) [.allocate,.allocate] (by decide)
    (by decide) (by decide) (by decide +kernel)).final
  have hzero : (run (pageStep 0x2000) (freshPage (fun _ => 0) 0x2000 2000)
      [.allocate,.allocate]).map (fun state => (freeObjects state.memory 0x2000,
        (allocatePage state.memory 0x2000).1.toOption))=some (0,some 0x2fd0) := by
    decide +kernel
  rw [hrun,Option.map_some,Option.some.injEq,Prod.mk.injEq] at hzero
  obtain ⟨error,herror⟩ := hlast.fails.mpr hzero.1
  rw [herror] at hzero
  cases hzero.2

end Runs

end WorkbenchOS.SlabExhaustion
