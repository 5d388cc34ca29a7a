import WorkbenchOS.TransitionRuns

/-!
# The keyboard buffer

`PS2Keyboard` stores scan codes at a growing index and reads them back from
that same end. Two codes that wait together are therefore read in reverse.
The handler also stops one entry before the buffer is full.
-/

namespace WorkbenchOS.PS2Keyboard

open TransitionRuns

/-- `m_buffer_size`. -/
def bufferSize : ℕ := 128

/-- The fields of `PS2Keyboard`. -/
structure Keyboard where
  /-- `m_buffer_items`. -/
  bufferItems : ℕ
  /-- `m_buffer`, by index. -/
  buffer : ℕ→UInt8

/-- A keyboard before its first interrupt. -/
def Keyboard.initial : Keyboard := ⟨0,fun _ => 0⟩

/-- `is_buffer_empty`. -/
def isBufferEmpty (keyboard : Keyboard) : Bool := keyboard.bufferItems=0

/-- `interrupt_handler`, with the scan code the port delivers. -/
def interruptHandler (keyboard : Keyboard) (key : UInt8) : Keyboard :=
  if keyboard.bufferItems<bufferSize-1 then
    ⟨keyboard.bufferItems+1,Function.update keyboard.buffer keyboard.bufferItems key⟩
  else keyboard

/-- `read`. -/
def read (keyboard : Keyboard) : UInt8×Keyboard :=
  if 0<keyboard.bufferItems then
    (keyboard.buffer (keyboard.bufferItems-1),{keyboard with bufferItems := keyboard.bufferItems-1})
  else (0,keyboard)

/-- What can happen to a keyboard. -/
inductive Event where
  /-- A scan code arrives. -/
  | interrupt
  /-- The kernel asks for one. -/
  | read
  deriving DecidableEq

/-- An event with the scan code it brings. -/
inductive Action where
  /-- The code arrives. -/
  | interrupt (key : UInt8)
  /-- The kernel asks for one. -/
  | read
  deriving DecidableEq

/-- Forget the scan code. -/
def Action.event : Action→Event
  | .interrupt _ => .interrupt
  | .read => .read

/-- A keyboard and what went through it. -/
structure History where
  /-- The keyboard. -/
  keyboard : Keyboard
  /-- The codes the handler stored, oldest first. -/
  accepted : List UInt8
  /-- What reads of a non-empty buffer returned, oldest first. -/
  delivered : List UInt8
  /-- How many codes were waiting, each time one was dropped. -/
  dropped : List ℕ

/-- Nothing has happened yet. -/
def History.initial : History := ⟨.initial,[],[],[]⟩

/-- One event of a history. A code is accepted when the handler has counted
it. -/
def step (history : History) : Action→Option History
  | .interrupt key =>
    let next := interruptHandler history.keyboard key
    if next.bufferItems=history.keyboard.bufferItems then
      some {history with keyboard := next,
                         dropped := history.dropped++[history.keyboard.bufferItems]}
    else some {history with keyboard := next,accepted := history.accepted++[key]}
  | .read =>
    let result := read history.keyboard
    if isBufferEmpty history.keyboard then some {history with keyboard := result.2}
    else some {history with keyboard := result.2,delivered := history.delivered++[result.1]}

/-- The codes read so far are the first ones accepted, in the order they
arrived, and codes were dropped only while every entry of the buffer was in
use. -/
def InOrder (history : History) : Prop :=
  history.delivered<+:history.accepted ∧ ∀ items∈history.dropped,items=bufferSize

/-- From a buffer of so many codes on, every read finds at most one code, and
no code arrives while all but one entry are in use. -/
def Prompt : (items : ℕ)→List Event→Prop
  | _,[] => True
  | items,.interrupt::rest => items≠bufferSize-1 ∧ Prompt (items+1) rest
  | items,.read::rest => items≤1 ∧ Prompt (items-1) rest

/-- The actions of a schedule when the codes arrive as numbered; the next one
has number `n`. -/
def deliver (codes : ℕ→UInt8) : (n : ℕ)→List Event→List Action
  | _,[] => []
  | n,.interrupt::rest => .interrupt (codes n)::deliver codes (n+1) rest
  | n,.read::rest => .read::deliver codes n rest

/-- Only codes that are still to come matter. -/
theorem deliver_congr {codes codes' : ℕ→UInt8} {n : ℕ} (h : ∀ i,n≤ i → codes i=codes' i)
    (schedule : List Event) : deliver codes n schedule=deliver codes' n schedule := by
  induction schedule generalizing n with
  | nil => rfl
  | cons event rest ih =>
    cases event with
    | interrupt =>
      have hr := ih (n:=n+1) (fun i hi => h i (by omega))
      simp only [deliver,hr,h n le_rfl]
    | read =>
      have hr := ih h
      simp only [deliver,hr]

/-- Every list of actions is a schedule with codes. -/
theorem exists_deliver (actions : List Action) (n : ℕ) :
    ∃ codes,deliver codes n (actions.map Action.event)=actions := by
  induction actions generalizing n with
  | nil => exact ⟨fun _ => 0,rfl⟩
  | cons action rest ih =>
    cases action with
    | interrupt key =>
      obtain ⟨codes,hc⟩ := ih (n+1)
      have hk : deliver (Function.update codes n key) (n+1) (rest.map Action.event)=rest := by
        have hs : ∀ i,n+1≤ i → Function.update codes n key i=codes i := by
          intro i hi
          exact Function.update_of_ne (by omega) _ _
        rw [deliver_congr hs,hc]
      refine ⟨Function.update codes n key,?_⟩
      simp only [List.map_cons,Action.event,deliver,Function.update_self,hk]
    | read =>
      obtain ⟨codes,hc⟩ := ih n
      refine ⟨codes,?_⟩
      simp only [List.map_cons,Action.event,deliver,hc]

/-- The codes of a schedule do not change its events. -/
theorem deliver_event (codes : ℕ→UInt8) (n : ℕ) (schedule : List Event) :
    (deliver codes n schedule).map Action.event=schedule := by
  induction schedule generalizing n with
  | nil => rfl
  | cons event rest ih =>
    cases event with
    | interrupt => simp only [deliver,List.map_cons,Action.event,ih]
    | read => simp only [deliver,List.map_cons,Action.event,ih]

/-- A history without a mistake so far: `n` codes have arrived and were all
stored, the first `d` of them have been read, and the others wait in the
buffer in the order they arrived. -/
structure Orderly (codes : ℕ→UInt8) (n d : ℕ) (history : History) : Prop where
  /-- No code was read before it arrived. -/
  le : d≤n
  /-- The handler leaves one entry free. -/
  fits : n-d<bufferSize
  /-- All arrivals were stored. -/
  accepted : history.accepted=(List.range n).map codes
  /-- The oldest ones have been read. -/
  delivered : history.delivered=(List.range d).map codes
  /-- Nothing was dropped. -/
  dropped : history.dropped=[]
  /-- The others wait. -/
  items : history.keyboard.bufferItems=n-d
  /-- Oldest first. -/
  waiting : ∀ i<n-d,history.keyboard.buffer i=codes (d+i)

section

variable {codes : ℕ→UInt8} {n d : ℕ} {history : History}

/-- What has been read in an orderly history is a prefix of what came in. -/
theorem Orderly.inOrder (h : Orderly codes n d history) : InOrder history := by
  have hp : List.range d<+:List.range n := by
    refine ⟨(List.range (n-d)).map (d+·),?_⟩
    rw [←List.range_add,Nat.add_sub_cancel' h.le]
  refine ⟨?_,by simp only [h.dropped,List.not_mem_nil,false_implies,implies_true]⟩
  rw [h.accepted,h.delivered]
  exact hp.map codes

/-- A code that finds two free entries is stored behind the others. -/
theorem Orderly.interrupt (h : Orderly codes n d history) (hi : n-d≠bufferSize-1) :
    ∃ next,step history (.interrupt (codes n))=some next ∧ Orderly codes (n+1) d next := by
  have hle := h.le
  have hf := h.fits
  have hroom : n-d<bufferSize-1 := by omega
  have hk : interruptHandler history.keyboard (codes n)=
      ⟨n-d+1,Function.update history.keyboard.buffer (n-d) (codes n)⟩ := by
    rw [interruptHandler,h.items,if_pos hroom]
  refine ⟨{history with
    keyboard := ⟨n-d+1,Function.update history.keyboard.buffer (n-d) (codes n)⟩,
    accepted := history.accepted++[codes n]},?_,?_⟩
  · simp only [step,hk,h.items]
    rw [if_neg (by omega)]
  · refine ⟨by omega,by omega,?_,h.delivered,h.dropped,by dsimp only; omega,?_⟩
    · rw [h.accepted,List.range_succ,List.map_append,List.map_singleton]
    · intro i hi'
      dsimp only
      by_cases hn : i=n-d
      · rw [hn,Function.update_self,Nat.add_sub_cancel' hle]
      · rw [Function.update_of_ne hn]
        exact h.waiting i (by omega)

/-- What a read of a buffer with codes in it leaves: the newest code has been
returned. -/
theorem Orderly.read_newest (h : Orderly codes n d history) (hi : 0<n-d) :
    step history .read=some {history with
      keyboard := {history.keyboard with bufferItems := n-d-1},
      delivered := history.delivered++[codes (n-1)]} := by
  have hle := h.le
  have hw : history.keyboard.buffer (n-d-1)=codes (n-1) := by
    have hlast := h.waiting (n-d-1) (by omega)
    rwa [show d+(n-d-1)=n-1 by omega] at hlast
  have hr : read history.keyboard=
      (codes (n-1),{history.keyboard with bufferItems := n-d-1}) := by
    rw [read,h.items,if_pos hi,hw]
  have he : isBufferEmpty history.keyboard=false := by
    simp only [isBufferEmpty,h.items,hi.ne',decide_false]
  simp only [step,hr,he,Bool.false_eq_true,if_false]

/-- A read of a buffer with one code returns the oldest one. -/
theorem Orderly.read_one (h : Orderly codes n d history) (hi : n-d=1) :
    ∃ next,step history .read=some next ∧ Orderly codes n (d+1) next := by
  refine ⟨_,h.read_newest (by omega),by omega,lt_of_le_of_lt (by omega) h.fits,
    h.accepted,?_,h.dropped,?_,?_⟩
  · dsimp only
    rw [h.delivered,List.range_succ,List.map_append,List.map_singleton,show n-1=d by omega]
  · dsimp only
    omega
  · intro i hi'
    omega

/-- A read of an empty buffer changes nothing. -/
theorem Orderly.read_empty (h : Orderly codes n d history) (hi : n-d=0) :
    step history .read=some history := by
  have hr : read history.keyboard=(0,history.keyboard) := by
    rw [read,h.items,hi,if_neg (lt_irrefl 0)]
  have he : isBufferEmpty history.keyboard=true := by
    simp only [isBufferEmpty,h.items,hi,decide_true]
  simp only [step,hr,he,if_true]

/-- A read that finds two codes or more returns the newest one; unless the
oldest has the same value, the order is lost. -/
theorem Orderly.read_many (h : Orderly codes n d history) (hi : 1<n-d)
    (hc : codes (n-1)≠codes d) :
    ∀ next,step history .read=some next → ¬InOrder next := by
  intro next hn hp
  rw [h.read_newest (by omega),Option.some.injEq] at hn
  have hpre := hp.1
  rw [←hn,h.accepted,h.delivered] at hpre
  have hlen : ((List.range d).map codes).length=d := by simp only [List.length_map,List.length_range]
  have hlt : d<((List.range d).map codes++[codes (n-1)]).length := by
    simp only [List.length_append,hlen,List.length_singleton,Nat.lt_succ_self]
  have hget := hpre.getElem hlt
  simp only [List.getElem_append_right hlen.le,hlen,Nat.sub_self,List.getElem_singleton,
    List.getElem_map,List.getElem_range] at hget
  exact hc hget

/-- A code that finds one free entry is dropped although the buffer is not
full. -/
theorem Orderly.interrupt_last (h : Orderly codes n d history) (hi : n-d=bufferSize-1)
    (key : UInt8) : ∀ next,step history (.interrupt key)=some next → ¬InOrder next := by
  intro next hn hp
  have hk : interruptHandler history.keyboard key=history.keyboard := by
    rw [interruptHandler,h.items,hi,if_neg (lt_irrefl _)]
  simp only [step,hk,if_true,h.dropped,List.nil_append,Option.some.injEq] at hn
  have hd : history.keyboard.bufferItems=bufferSize := by
    refine hp.2 _ ?_
    rw [←hn]
    exact List.mem_singleton_self _
  rw [h.items,hi] at hd
  exact absurd hd (by decide)

end

/-- Along a prompt schedule the history stays orderly, whatever the codes
are. -/
theorem Orderly.always {codes : ℕ→UInt8} {n d : ℕ} {history : History}
    (h : Orderly codes n d history) {schedule : List Event} (hp : Prompt (n-d) schedule) :
    Always step InOrder history (deliver codes n schedule) := by
  induction schedule generalizing n d history with
  | nil => exact h.inOrder
  | cons event rest ih =>
    have hle := h.le
    cases event with
    | interrupt =>
      obtain ⟨next,hn,hnext⟩ := h.interrupt hp.1
      have hrest : Prompt (n+1-d) rest := by
        rw [show n+1-d=n-d+1 by omega]
        exact hp.2
      exact ⟨h.inOrder,next,hn,ih hnext hrest⟩
    | read =>
      by_cases hz : n-d=0
      · have hrest : Prompt (n-d) rest := by
          have hp' := hp.2
          rwa [show n-d-1=n-d by omega] at hp'
        exact ⟨h.inOrder,history,h.read_empty hz,ih h hrest⟩
      · have hone : n-d=1 := by
          have hle' := hp.1
          omega
        obtain ⟨next,hn,hnext⟩ := h.read_one hone
        have hrest : Prompt (n-(d+1)) rest := by
          have hp' := hp.2
          rwa [show n-d-1=n-(d+1) by omega] at hp'
        exact ⟨h.inOrder,next,hn,ih hnext hrest⟩

/-- A schedule that is not prompt loses the order for some codes: for those
that tell the newest code of the first late read from the oldest. -/
theorem exists_codes_of_not_prompt {n d : ℕ} (hle : d≤n) {schedule : List Event}
    (hp : ¬Prompt (n-d) schedule) :
    ∃ codes,∀ history,Orderly codes n d history →
      ¬Always step InOrder history (deliver codes n schedule) := by
  induction schedule generalizing n d with
  | nil => exact absurd trivial hp
  | cons event rest ih =>
    cases event with
    | interrupt =>
      by_cases hi : n-d=bufferSize-1
      · refine ⟨fun _ => 0,?_⟩
        rintro history h ⟨-,next,hn,ha⟩
        exact h.interrupt_last hi _ next hn ha.head
      · have hrest : ¬Prompt (n+1-d) rest := by
          rw [show n+1-d=n-d+1 by omega]
          exact fun hr => hp ⟨hi,hr⟩
        obtain ⟨codes,hc⟩ := ih (by omega) hrest
        refine ⟨codes,?_⟩
        rintro history h ⟨-,next,hn,ha⟩
        obtain ⟨next',hn',hnext⟩ := h.interrupt hi
        have he : next=next' := Option.some.inj (hn.symm.trans hn')
        exact hc next' hnext (he ▸ ha)
    | read =>
      by_cases hmany : 1<n-d
      · -- the codes tell number `n-1` from all others
        refine ⟨fun i => if i=n-1 then 1 else 0,?_⟩
        rintro history h ⟨-,next,hn,ha⟩
        refine h.read_many hmany ?_ next hn ha.head
        rw [if_pos rfl,if_neg (by omega)]
        decide
      · by_cases hz : n-d=0
        · have hrest : ¬Prompt (n-d) rest := by
            intro hr
            refine hp ⟨by omega,?_⟩
            rwa [show n-d-1=n-d by omega]
          obtain ⟨codes,hc⟩ := ih hle hrest
          refine ⟨codes,?_⟩
          rintro history h ⟨-,next,hn,ha⟩
          have he : next=history := Option.some.inj (hn.symm.trans (h.read_empty hz))
          exact hc history h (he ▸ ha)
        · have hrest : ¬Prompt (n-(d+1)) rest := by
            intro hr
            refine hp ⟨by omega,?_⟩
            rwa [show n-d-1=n-(d+1) by omega]
          obtain ⟨codes,hc⟩ := ih (by omega) hrest
          refine ⟨codes,?_⟩
          rintro history h ⟨-,next,hn,ha⟩
          obtain ⟨next',hn',hnext⟩ := h.read_one (by omega)
          have he : next=next' := Option.some.inj (hn.symm.trans hn')
          exact hc next' hnext (he ▸ ha)

/-- The first history is orderly. -/
theorem initial_orderly (codes : ℕ→UInt8) : Orderly codes 0 0 History.initial :=
  ⟨le_rfl,by decide,rfl,rfl,rfl,rfl,fun i hi => absurd hi (by omega)⟩

/-- A schedule keeps scan codes in order, whichever codes arrive, exactly when
no read finds two of them and none arrives at the last free entry. -/
theorem inOrder_iff_prompt (schedule : List Event) :
    (∀ actions,actions.map Action.event=schedule → Always step InOrder History.initial actions) ↔
      Prompt 0 schedule := by
  constructor
  · intro h
    by_contra hp
    obtain ⟨codes,hc⟩ := exists_codes_of_not_prompt (le_refl 0) hp
    exact hc History.initial (initial_orderly codes) (h _ (deliver_event codes 0 schedule))
  · rintro hp actions rfl
    obtain ⟨codes,hc⟩ := exists_deliver actions 0
    rw [←hc]
    exact (initial_orderly codes).always hp

/-- Two codes that wait together come back in reverse. -/
theorem two_codes_reversed :
    ¬∀ actions,Always step InOrder History.initial actions := by
  intro h
  obtain ⟨last,hl,hp⟩ := (h [.interrupt 30,.interrupt 48,.read]).final
  have hd : last.delivered=[48] ∧ last.accepted=[30,48] := by
    cases hl
    exact ⟨rfl,rfl⟩
  have hpre := hp.1
  rw [hd.1,hd.2] at hpre
  exact absurd hpre (by decide)

end WorkbenchOS.PS2Keyboard
