import WorkbenchOS.ProcessorBoot

/-!
# Runs of the boot

Messages and processors keep what the boot processor relies on, in any order.
A measure of what is left shows that the boot can always be brought to its end
when all processors are there.
-/

namespace WorkbenchOS.ApplicationProcessors

open ByteMemory TransitionRuns

section Messages

variable {image : Image} {system next : System}

/-- The processors after a message has arrived. -/
def received (image : Image) (system : System) (message : Message) : ℕ→Ap :=
  if image.present message.target then
    Function.update system.ap message.target
      ((system.ap message.target).receive message.order)
  else system.ap

/-- A message that arrives was the oldest for its target. -/
theorem deliver_inv {k : ℕ} (hs : deliver image system k=some next) :
    ∃ message,system.inFlight[k]?=some message ∧
      (∀ earlier∈system.inFlight.take k,earlier.target≠message.target) ∧
      next={system with
        inFlight := system.inFlight.eraseIdx k
        ap := received image system message} := by
  rw [deliver] at hs
  split at hs
  · cases hs
  · rename_i message hm
    split at hs
    · rename_i hfirst
      cases hs
      exact ⟨message,hm,hfirst,rfl⟩
    · cases hs

/-- The oldest message can arrive. -/
theorem deliver_oldest {message : Message} {rest : List Message}
    (hm : system.inFlight=message::rest) : deliver image system 0=
      some {system with inFlight := rest,ap := received image system message} := by
  rw [deliver,hm]
  exact if_pos (fun _ hmem => by cases hmem)

/-- Other processors do not notice. -/
theorem received_other {message : Message} {id : ℕ} (h : id≠message.target) :
    received image system message id=system.ap id := by
  rw [received]
  split
  · exact Function.update_of_ne h _ _
  · rfl

/-- INIT at a processor that is not started. -/
theorem received_init {i : ℕ} (h : (system.ap i).place=.off) :
    Told image i (received image system ⟨i,.init⟩ i).place := by
  rw [Told,received]
  split
  · rw [Function.update_self]
    rfl
  · exact h

/-- SIPI at a processor that waits. -/
theorem received_sipi {i : ℕ} (h : Told image i (system.ap i).place)
    (hp : image.present i=true) :
    received image system ⟨i,.sipi 8⟩ i={system.ap i with place := .real 8} := by
  rw [Told,if_pos hp] at h
  rw [received,if_pos hp,Function.update_self]
  exact if_pos h

/-- SIPI where nobody is. -/
theorem received_nobody {i : ℕ} (hp : image.present i=false) (message : Message)
    (hm : message.target=i) : received image system message=system.ap := by
  rw [received,hm,hp]
  rfl

/-- The first message arrives, and what it makes of its target is right. -/
theorem booting_received (h : Booting image system) {i : ℕ} {message : Message}
    {rest : List Message} (hi : 1≤ i ∧ i<cpus) (hround : round system.bsp=i) (htarget : message.target=i)
    (hheld : Held image system.memory i (received image system message i))
    (hplace : (received image system message i).place≠.faulted)
    (hcurrent : Current image
      {system with inFlight := rest,ap := received image system message}) :
    Booting image {system with inFlight := rest,ap := received image system message} where
  bounds := h.bounds
  inside := h.inside
  words := h.words
  past := by
    intro id h1 h2
    have hne : id≠message.target := by
      rw [htarget]
      have h2 : id<round system.bsp := h2
      omega
    dsimp only
    rw [received_other hne]
    exact h.past id h1 h2
  future := by
    intro id hid
    have hne : id≠message.target := by
      rw [htarget]
      have hid : id=0 ∨ round system.bsp< id ∨ cpus≤ id := hid
      omega
    dsimp only
    rw [received_other hne]
    exact h.future id hid
  held := by
    intro id hid
    dsimp only
    by_cases he : id=i
    · rw [he]
      exact hheld
    · rw [received_other (htarget ▸ he)]
      exact h.held id hid
  current := hcurrent
  identity := h.identity
  lost := by
    intro id hl
    dsimp only at hl
    by_cases he : id=i
    · rw [he] at hl
      exact absurd hl hplace
    · rw [received_other (htarget ▸ he)] at hl
      exact h.lost id hl
  there := by
    intro id ho
    dsimp only at ho
    by_cases hp : image.present message.target=true
    · by_cases he : id=message.target
      · rw [he]
        exact hp
      · rw [received_other he] at ho
        exact h.there id ho
    · rw [received_nobody (Bool.eq_false_iff.mpr hp) message rfl] at ho
      exact h.there id ho

/-- Of a processor that has been told nothing holds. -/
theorem Told.held (memory : Memory) {i : ℕ} {ap : Ap} (h : Told image i ap.place) :
    Held image memory i ap := by
  rw [Told] at h
  split at h
  · simp only [Held,h]
  · simp only [Held,h]

/-- It is not lost. -/
theorem Told.there {i : ℕ} {place : Place} (h : Told image i place) : place≠.faulted := by
  rw [Told] at h
  rw [h]
  split
  · decide
  · decide

/-- A list of one message gives that one. -/
theorem single_message {first message : Message} {k : ℕ} (h : [first][k]?=some message) :
    k=0 ∧ message=first := by
  cases k with
  | zero =>
    cases h
    exact ⟨rfl,rfl⟩
  | succ k => cases h

/-- Of two messages for one target the first arrives first. -/
theorem older_message {first second message : Message} {k : ℕ}
    (h : [first,second][k]?=some message) (ht : first.target=second.target)
    (hf : ∀ earlier∈[first,second].take k,earlier.target≠message.target) :
    k=0 ∧ message=first := by
  cases k with
  | zero =>
    cases h
    exact ⟨rfl,rfl⟩
  | succ k =>
    cases k with
    | zero =>
      cases h
      exact absurd ht (hf first (List.mem_cons_self ..))
    | succ k => cases h

/-- INIT arrives before SIPI is sent. -/
theorem booting_initiated (h : Booting image system) {i : ℕ} (hi : 1≤ i ∧ i<cpus)
    (hround : round system.bsp=i)
    (hinitiated : Initiated image system i) {k : ℕ} (hs : deliver image system k=some next)
    (hcurrent : ∀ rest ap,Initiated image {system with inFlight := rest,ap := ap} i →
      Current image {system with inFlight := rest,ap := ap}) : Booting image next := by
  obtain ⟨message,hm,-,rfl⟩ := deliver_inv hs
  obtain ⟨hflight,hoff⟩|⟨hflight,-⟩ := hinitiated
  · rw [hflight] at hm
    obtain ⟨rfl,rfl⟩ := single_message hm
    have htold : Told image i (received image system ⟨i,.init⟩ i).place := received_init hoff
    refine booting_received h hi hround rfl (htold.held _) htold.there ?_
    refine hcurrent _ _ (Or.inr ⟨?_,htold⟩)
    dsimp only
    rw [hflight]
    rfl
  · rw [hflight] at hm
    cases hm

/-- A message arrives. -/
theorem booting_deliver (h : Booting image system) {k : ℕ}
    (hs : deliver image system k=some next) : Booting image next := by
  have hcurrent := h.current
  have hempty : system.inFlight≠[] := by
    intro he
    rw [deliver,he] at hs
    cases hs
  cases hb : system.bsp with
  | delay i =>
    rw [Current,hb] at hcurrent
    have hi := h.in_loop (by rw [hb]; rfl : round system.bsp=i) (by rw [hb]; simp)
      (by rw [hb]; simp) (by rw [hb]; simp) (by rw [hb]; simp) (by rw [hb]; simp)
    refine booting_initiated h hi (by rw [hb]; rfl) hcurrent.1 hs ?_
    intro rest ap hinitiated
    simp only [Current,hb]
    exact ⟨hinitiated,hcurrent.2⟩
  | sipiHigh i =>
    rw [Current,hb] at hcurrent
    have hi := h.in_loop (by rw [hb]; rfl : round system.bsp=i) (by rw [hb]; simp)
      (by rw [hb]; simp) (by rw [hb]; simp) (by rw [hb]; simp) (by rw [hb]; simp)
    refine booting_initiated h hi (by rw [hb]; rfl) hcurrent.1 hs ?_
    intro rest ap hinitiated
    simp only [Current,hb]
    exact ⟨hinitiated,hcurrent.2⟩
  | sipiLow i =>
    rw [Current,hb] at hcurrent
    have hi := h.in_loop (by rw [hb]; rfl : round system.bsp=i) (by rw [hb]; simp)
      (by rw [hb]; simp) (by rw [hb]; simp) (by rw [hb]; simp) (by rw [hb]; simp)
    refine booting_initiated h hi (by rw [hb]; rfl) hcurrent.1 hs ?_
    intro rest ap hinitiated
    simp only [Current,hb]
    exact ⟨hinitiated,hcurrent.2⟩
  | wait i =>
    rw [Current,hb] at hcurrent
    have hround : round system.bsp=i := by rw [hb]; rfl
    have hdone : system.bsp≠.done := by rw [hb]; simp
    have hi := h.in_loop hround hdone (by rw [hb]; simp) (by rw [hb]; simp) (by rw [hb]; simp)
      (by rw [hb]; simp)
    obtain ⟨message,hm,hfirst,rfl⟩ := deliver_inv hs
    cases hcurrent with
    | both hflight hoff hspin =>
      rw [hflight] at hm hfirst
      obtain ⟨rfl,rfl⟩ := older_message hm rfl hfirst
      have htold : Told image i (received image system ⟨i,.init⟩ i).place :=
        received_init hoff
      refine booting_received h hi hround rfl (htold.held _) htold.there ?_
      simp only [Current,hb]
      exact .one (by dsimp only; rw [hflight]; rfl) htold hspin
    | one hflight htold hspin =>
      rw [hflight] at hm
      obtain ⟨rfl,rfl⟩ := single_message hm
      have hrest : system.inFlight.eraseIdx 0=[] := by
        rw [hflight]
        rfl
      cases hp : image.present i with
      | true =>
        have hap := received_sipi htold hp
        refine booting_received h hi hround rfl ?_ ?_ ?_
        · rw [hap]
          simp only [Held]
        · rw [hap]
          simp
        · simp only [Current,hb]
          refine .runs hrest ?_ hspin
          dsimp only
          rw [hap]
          trivial
      | false =>
        have hap : received image system ⟨i,.sipi 8⟩=system.ap := received_nobody hp _ rfl
        have hoff : (system.ap i).place=.off := by
          rw [Told,hp] at htold
          exact htold
        refine booting_received h hi hround rfl ?_ ?_ ?_
        · rw [hap]
          simp only [Held,hoff]
        · rw [hap,hoff]
          decide
        · simp only [Current,hb]
          refine .nobody hrest hp ?_ hspin
          dsimp only
          rw [hap]
          exact hoff
    | nobody hflight _ _ _ => exact absurd hflight hempty
    | runs hflight _ _ => exact absurd hflight hempty
    | cleared hflight _ _ => exact absurd hflight hempty
  | copy => rw [Current,hb] at hcurrent; exact absurd hcurrent hempty
  | cr3 => rw [Current,hb] at hcurrent; exact absurd hcurrent hempty
  | entry => rw [Current,hb] at hcurrent; exact absurd hcurrent hempty
  | unmap => rw [Current,hb] at hcurrent; exact absurd hcurrent hempty
  | done => rw [Current,hb] at hcurrent; exact absurd hcurrent hempty
  | stack i => rw [Current,hb] at hcurrent; exact absurd hcurrent.1 hempty
  | flag i => rw [Current,hb] at hcurrent; exact absurd hcurrent.1 hempty
  | initHigh i => rw [Current,hb] at hcurrent; exact absurd hcurrent.1 hempty
  | initLow i => rw [Current,hb] at hcurrent; exact absurd hcurrent.1 hempty

end Messages

section Processors

variable {image : Image} {system next : System} {id : ℕ}

/-- A processor that can take a step is the one that is waited for, or is
about to return from `set_booted`. -/
theorem Booting.running (h : Booting image system) {mapped spinlock : Bool}
    (hs : apStep image mapped system.memory spinlock (system.ap id)≠none) :
    1≤ id ∧ id<cpus ∧ id≤round system.bsp ∧
      (system.bsp=.wait id ∧ system.inFlight=[] ∧ Underway (system.ap id).place ∧
          system.spinlock=true ∨
        (system.ap id).place=.booted) := by
  have hoff : (system.ap id).place≠.off := by
    intro hp
    rw [apStep,hp] at hs
    exact hs rfl
  have hwaiting : (system.ap id).place≠.waiting := by
    intro hp
    rw [apStep,hp] at hs
    exact hs rfl
  have hfinished : Finished (system.ap id).place → (system.ap id).place=.booted := by
    intro hf
    cases hp : (system.ap id).place with
    | booted => rfl
    | returned =>
      rw [apStep,hp] at hs
      exact absurd rfl hs
    | faulted =>
      rw [apStep,hp] at hs
      exact absurd rfl hs
    | _ =>
      rw [hp] at hf
      cases hf
  have htold : ¬Told image id (system.ap id).place := by
    intro ht
    rw [Told] at ht
    split at ht
    · exact hwaiting ht
    · exact hoff ht
  have hrange : ¬(id=0 ∨ round system.bsp< id ∨ cpus≤ id) := fun hr => hoff (h.future id hr)
  push Not at hrange
  refine ⟨by omega,hrange.2.2,hrange.2.1,?_⟩
  rcases Nat.lt_or_eq_of_le hrange.2.1 with hlt|heq
  · exact Or.inr (hfinished (h.past id (by omega) hlt))
  · have hcurrent := h.current
    have hinitiated : ¬Initiated image system id := by
      rintro (⟨-,hp⟩|⟨-,hp⟩)
      · exact hoff hp
      · exact htold hp
    cases hb : system.bsp with
    | wait i =>
      rw [Current,hb] at hcurrent
      have hi : id=i := by rw [heq,hb]; rfl
      subst hi
      cases hcurrent with
      | both _ hp _ => exact absurd hp hoff
      | one _ hp _ => exact absurd hp htold
      | nobody _ _ hp _ => exact absurd hp hoff
      | runs hm hp hs => exact Or.inl ⟨rfl,hm,hp,hs⟩
      | cleared _ hp _ => exact Or.inr (hfinished hp)
    | copy => rw [hb] at heq; exact absurd heq (by rw [round]; omega)
    | cr3 => rw [hb] at heq; exact absurd heq (by rw [round]; omega)
    | entry => rw [hb] at heq; exact absurd heq (by rw [round]; omega)
    | unmap => rw [hb] at heq; exact absurd heq (by rw [round]; omega)
    | done => rw [hb] at heq; exact absurd heq (by rw [round]; omega)
    | stack i =>
      rw [Current,hb] at hcurrent
      rw [hb] at heq
      cases (heq : id=i)
      exact absurd hcurrent.2 hoff
    | flag i =>
      rw [Current,hb] at hcurrent
      rw [hb] at heq
      cases (heq : id=i)
      exact absurd hcurrent.2 hoff
    | initHigh i =>
      rw [Current,hb] at hcurrent
      rw [hb] at heq
      cases (heq : id=i)
      exact absurd hcurrent.2.1 hoff
    | initLow i =>
      rw [Current,hb] at hcurrent
      rw [hb] at heq
      cases (heq : id=i)
      exact absurd hcurrent.2.1 hoff
    | delay i =>
      rw [Current,hb] at hcurrent
      rw [hb] at heq
      cases (heq : id=i)
      exact absurd hcurrent.1 hinitiated
    | sipiHigh i =>
      rw [Current,hb] at hcurrent
      rw [hb] at heq
      cases (heq : id=i)
      exact absurd hcurrent.1 hinitiated
    | sipiLow i =>
      rw [Current,hb] at hcurrent
      rw [hb] at heq
      cases (heq : id=i)
      exact absurd hcurrent.1 hinitiated

/-- The system after a processor has gone on. -/
def System.went (system : System) (id : ℕ) (ap : Ap) (memory : Memory) (spinlock : Bool) :
    System :=
  {system with
    memory := memory
    spinlock := spinlock
    ap := Function.update system.ap id ap}

/-- A processor on its way goes on. -/
theorem Booting.advanced (hf : image.Fits) (h : Booting image system) (hid : 1≤ id ∧ id<cpus)
    (hb : system.bsp=.wait id) (hm : system.inFlight=[]) {ap : Ap} {memory : Memory}
    {spinlock : Bool} (hthere : (system.ap id).place≠.off)
    (ha : Advances image system.memory id (system.ap id) ap memory spinlock) :
    Booting image (system.went id ap memory spinlock) := by
  have hdone : system.bsp≠.done := by rw [hb]; simp
  have hplace : ap.place≠.faulted := by
    intro hp
    obtain ⟨hu,-⟩|⟨hz,-⟩ := ha.cleared
    · rw [hp] at hu
      cases hu
    · rw [hp] at hz
      cases hz
  have hother : ∀ other,other≠id → (system.went id ap memory spinlock).ap other=system.ap other :=
    fun other hne => Function.update_of_ne hne _ _
  have hself : (system.went id ap memory spinlock).ap id=ap := Function.update_self _ _ _
  exact {
    bounds := h.bounds
    inside := h.inside
    words := by
      refine Words.frame hf h.words (fun x hx hy => ha.frame x (Or.inl ?_))
      rw [stackTop]
      omega
    past := by
      intro other h1 h2
      have h2 : other<round system.bsp := h2
      rw [hb] at h2
      rw [hother other (Nat.ne_of_lt h2)]
      exact h.past other h1 (by rw [hb]; exact h2)
    future := by
      intro other hr
      have hr' : other=0 ∨ round system.bsp<other ∨ cpus≤other := hr
      have hr'' : other=0 ∨ id<other ∨ cpus≤other := by
        rw [hb] at hr'
        exact hr'
      rw [hother other (by omega)]
      exact h.future other hr'
    held := by
      intro other h1
      by_cases he : other=id
      · rw [he,hself]
        exact ha.held
      · rw [hother other he]
        refine (h.held other h1).frame h1 (fun x hx hy => ha.frame x ?_)
        rw [stackTop] at hx hy ⊢
        omega
    current := by
      have hbsp : (system.went id ap memory spinlock).bsp=.wait id := hb
      rw [Current,hbsp]
      obtain ⟨hu,hs⟩|⟨hz,hs⟩ := ha.cleared
      · exact .runs hm (by rw [hself]; exact hu) hs
      · exact .cleared hm (by rw [hself,hz]; trivial) hs
    identity := h.identity
    lost := by
      intro other hl
      by_cases he : other=id
      · rw [he,hself] at hl
        exact absurd hl hplace
      · rw [hother other he] at hl
        exact h.lost other hl
    there := by
      intro other ho
      by_cases he : other=id
      · rw [he]
        exact h.there id hthere
      · rw [hother other he] at ho
        exact h.there other ho }

/-- Nothing of the round depends on how a processor that has cleared the flag
goes on. -/
theorem Current.finished (h : Current image system) {ap : Ap}
    (hp : Finished (system.ap id).place) (ha : Finished ap.place) :
    Current image (system.went id ap system.memory system.spinlock) := by
  have hsame : ∀ i,(system.ap i).place=.off →
      ((system.went id ap system.memory system.spinlock).ap i).place=.off := by
    intro i ho
    have hne : i≠id := by
      rintro rfl
      rw [ho] at hp
      cases hp
    change (Function.update system.ap id ap i).place=.off
    rw [Function.update_of_ne hne]
    exact ho
  have htold : ∀ i,Told image i (system.ap i).place →
      Told image i ((system.went id ap system.memory system.spinlock).ap i).place := by
    intro i ht
    have hne : i≠id := by
      rintro rfl
      rw [Told] at ht
      rw [ht] at hp
      split at hp
      · cases hp
      · cases hp
    change Told image i (Function.update system.ap id ap i).place
    rw [Function.update_of_ne hne]
    exact ht
  have hinitiated : ∀ i,Initiated image system i →
      Initiated image (system.went id ap system.memory system.spinlock) i := by
    rintro i (⟨hm,ho⟩|⟨hm,ht⟩)
    · exact Or.inl ⟨hm,hsame i ho⟩
    · exact Or.inr ⟨hm,htold i ht⟩
  cases hb : system.bsp with
  | wait i =>
    simp only [Current,System.went,hb] at h ⊢
    cases h with
    | both hm ho hs => exact .both hm (hsame i ho) hs
    | one hm ht hs => exact .one hm (htold i ht) hs
    | nobody hm hn ho hs => exact .nobody hm hn (hsame i ho) hs
    | runs hm hu hs =>
      refine .runs hm ?_ hs
      have hne : i≠id := by
        rintro rfl
        cases hq : (system.ap i).place with
        | booted => rw [hq] at hu; cases hu
        | returned => rw [hq] at hu; cases hu
        | faulted => rw [hq] at hu; cases hu
        | _ => rw [hq] at hp; cases hp
      dsimp only
      rw [Function.update_of_ne hne]
      exact hu
    | cleared hm hc hs =>
      refine .cleared hm ?_ hs
      dsimp only
      by_cases he : i=id
      · rw [he,Function.update_self]
        exact ha
      · rw [Function.update_of_ne he]
        exact hc
  | copy => simp only [Current,System.went,hb] at h ⊢; exact h
  | cr3 => simp only [Current,System.went,hb] at h ⊢; exact h
  | entry => simp only [Current,System.went,hb] at h ⊢; exact h
  | unmap => simp only [Current,System.went,hb] at h ⊢; exact h
  | done => simp only [Current,System.went,hb] at h ⊢; exact h
  | stack i => simp only [Current,System.went,hb] at h ⊢; exact ⟨h.1,hsame i h.2⟩
  | flag i => simp only [Current,System.went,hb] at h ⊢; exact ⟨h.1,hsame i h.2⟩
  | initHigh i =>
    simp only [Current,System.went,hb] at h ⊢
    exact ⟨h.1,hsame i h.2.1,h.2.2⟩
  | initLow i =>
    simp only [Current,System.went,hb] at h ⊢
    exact ⟨h.1,hsame i h.2.1,h.2.2⟩
  | delay i => simp only [Current,System.went,hb] at h ⊢; exact ⟨hinitiated i h.1,h.2⟩
  | sipiHigh i => simp only [Current,System.went,hb] at h ⊢; exact ⟨hinitiated i h.1,h.2⟩
  | sipiLow i => simp only [Current,System.went,hb] at h ⊢; exact ⟨hinitiated i h.1,h.2⟩

/-- A processor returns from `set_booted`, or is lost because the mapping is
gone. -/
theorem Booting.departed (h : Booting image system) {ap : Ap}
    (hp : (system.ap id).place=.booted) (ha : Finished ap.place)
    (hheld : Held image system.memory id ap) (hlost : ap.place=.faulted → system.bsp=.done) :
    Booting image (system.went id ap system.memory system.spinlock) := by
  have hfinished : Finished (system.ap id).place := by
    rw [hp]
    trivial
  have hother : ∀ other,other≠id →
      (system.went id ap system.memory system.spinlock).ap other=system.ap other :=
    fun other hne => Function.update_of_ne hne _ _
  have hself : (system.went id ap system.memory system.spinlock).ap id=ap :=
    Function.update_self _ _ _
  exact {
    bounds := h.bounds
    inside := h.inside
    words := h.words
    past := by
      intro other h1 h2
      by_cases he : other=id
      · rw [he,hself]
        exact ha
      · rw [hother other he]
        exact h.past other h1 h2
    future := by
      intro other hr
      have hoff := h.future other hr
      rw [hother other (by rintro rfl; rw [hp] at hoff; cases hoff)]
      exact hoff
    held := by
      intro other h1
      by_cases he : other=id
      · rw [he,hself]
        exact hheld
      · rw [hother other he]
        exact h.held other h1
    current := h.current.finished hfinished ha
    identity := h.identity
    lost := by
      intro other hl
      by_cases he : other=id
      · rw [he,hself] at hl
        exact hlost hl
      · rw [hother other he] at hl
        exact h.lost other hl
    there := by
      intro other ho
      by_cases he : other=id
      · rw [he]
        exact h.there id (by rw [hp]; decide)
      · rw [hother other he] at ho
        exact h.there other ho }

/-- A step of a processor that is waited for. -/
theorem Booting.advances (hf : image.Fits) (h : Booting image system) (hid : 1≤ id ∧ id<cpus)
    (hb : system.bsp=.wait id) (hu : Underway (system.ap id).place) :
    ∃ ap memory spinlock,
      apStep image true system.memory true (system.ap id)=
        some (ap,memory,spinlock) ∧
      Advances image system.memory id (system.ap id) ap memory spinlock := by
  have hwords := h.words
  rw [hb] at hwords
  exact underway_step hf hid.1 hu (h.held id hid.1) hwords.1 hwords.2

/-- Every step of an application processor. -/
theorem booting_ap (hf : image.Fits) (h : Booting image system) {cached : Bool}
    (hs : step image system (.ap id cached)=some next) : Booting image next := by
  obtain ⟨⟨ap,memory,spinlock⟩,hstep,rfl⟩ := Option.map_eq_some_iff.mp hs
  change Booting image (system.went id ap memory spinlock)
  obtain ⟨h1,h2,-,⟨hb,hm,hu,hspin⟩|hp⟩ :=
    h.running (by rw [hstep]; simp)
  · have hidentity : system.identity=true := h.identity.mpr (by rw [hb]; simp)
    rw [hidentity,Bool.true_or,hspin] at hstep
    obtain ⟨ap',memory',spinlock',hgoes,ha⟩ := h.advances hf ⟨h1,h2⟩ hb hu
    rw [hgoes] at hstep
    cases hstep
    refine h.advanced hf ⟨h1,h2⟩ hb hm ?_ ha
    intro ho
    rw [ho] at hu
    cases hu
  · have hheld := h.held id h1
    simp only [Held,hp] at hheld
    have hreturn : readLE system.memory (system.ap id).rsp 8=image.booted := by
      rw [hheld.1.rsp]
      exact hheld.2
    have htop : stackTop id-8+8=stackTop id := by
      rw [stackTop]
      omega
    simp only [apStep,hp] at hstep
    have hpair := Option.some.inj hstep
    split at hpair
    · cases hpair
      refine h.departed hp trivial ?_ (fun hl => by cases hl)
      simp only [Held]
      exact ⟨hheld.1.cr3,hheld.1.rax,by dsimp only; rw [hheld.1.rsp,htop]⟩
    · rename_i hlost
      cases hpair
      refine h.departed hp trivial (by simp only [Held]) (fun _ => ?_)
      by_contra hb
      refine hlost ⟨?_,hreturn⟩
      rw [h.identity.mpr hb,Bool.true_or]

/-- Every step keeps the invariant. -/
theorem booting_step (hf : image.Fits) (system : System) (action : Action) (next : System)
    (h : Booting image system) (hs : step image system action=some next) :
    Booting image next := by
  cases action with
  | bsp =>
    cases hs
    exact booting_bsp hf h
  | deliver k => exact booting_deliver h hs
  | ap id cached => exact booting_ap hf h hs

/-- It holds at the start. -/
theorem Initial.booting (h : Initial system) : Booting image system where
  bounds := by
    rw [h.bsp]
    exact ⟨by decide,fun _ => Or.inl rfl⟩
  inside := fun _ _ => by
    rw [h.bsp]
    decide
  words := by
    rw [h.bsp]
    trivial
  past := by
    intro id h1 h2
    rw [h.bsp] at h2
    cases h2
  future := fun id _ => h.off id
  held := by
    intro id _
    simp only [Held,h.off id]
  current := by
    rw [Current,h.bsp]
    exact h.inFlight
  identity := by
    rw [h.bsp]
    exact ⟨fun _ => by decide,fun _ => h.identity⟩
  lost := by
    intro id hl
    rw [h.off id] at hl
    cases hl
  there := fun id ho => absurd (h.off id) ho

end Processors

section Progress

variable {image : Image} {system next : System} {id : ℕ}

/-- How many steps the boot processor is from the end of the boot. -/
def remaining : Bsp→ℕ
  | .copy => 100
  | .cr3 => 99
  | .entry => 98
  | .stack i => 8*(cpus-i)+10
  | .flag i => 8*(cpus-i)+9
  | .initHigh i => 8*(cpus-i)+8
  | .initLow i => 8*(cpus-i)+7
  | .delay i => 8*(cpus-i)+6
  | .sipiHigh i => 8*(cpus-i)+5
  | .sipiLow i => 8*(cpus-i)+4
  | .wait i => 8*(cpus-i)+3
  | .unmap => 2
  | .done => 0

/-- What the boot processor waits for: messages, then the processor. -/
def pending (system : System) : ℕ :=
  match system.bsp with
  | .wait i => 20*system.inFlight.length+distance (system.ap i).place
  | _ => 0

/-- What is left of the boot. -/
def left (system : System) : ℕ := 100*remaining system.bsp+pending system

/-- Nothing is further than a processor that is not started. -/
theorem distance_le (place : Place) : distance place≤12 := by
  cases place <;> simp [distance]

/-- No more than two messages are under way. -/
theorem Booting.pending_lt (h : Booting image system) : pending system<100 := by
  have hcurrent := h.current
  rw [pending]
  split
  · rename_i i hb
    rw [Current,hb] at hcurrent
    have hd := distance_le (system.ap i).place
    cases hcurrent with
    | both hm _ _ => rw [hm]; simp only [List.length_cons,List.length_nil]; omega
    | one hm _ _ => rw [hm]; simp only [List.length_cons,List.length_nil]; omega
    | nobody hm _ _ _ => rw [hm]; simp only [List.length_nil]; omega
    | runs hm _ _ => rw [hm]; simp only [List.length_nil]; omega
    | cleared hm _ _ => rw [hm]; simp only [List.length_nil]; omega
  · decide

/-- A boot processor that does not wait goes on. -/
theorem remaining_bspStep (h : Booting image system) (hd : system.bsp≠.done)
    (hw : ∀ i,system.bsp=.wait i → system.spinlock=false) :
    remaining (bspStep image system).bsp<remaining system.bsp := by
  cases hb : system.bsp with
  | done => exact absurd hb hd
  | wait i =>
    have hs := hw i hb
    have hlt : i<cpus := by
      have hi := h.inside (by rw [hb]; simp) hd
      rw [hb] at hi
      exact hi
    simp only [bspStep,hb,hs,Bool.false_eq_true,if_false,nextRound]
    split
    · simp only [remaining]
      omega
    · simp only [remaining]
      omega
  | entry =>
    simp only [bspStep,hb]
    decide
  | _ =>
    simp only [bspStep,hb,remaining]
    omega

/-- While processors are to be started and are there, some step brings the
end of the boot nearer. -/
theorem Booting.goes_on (hf : image.Fits) (h : Booting image system)
    (hp : ∀ id,1≤ id → id<cpus → image.present id=true) (hd : system.bsp≠.done) :
    ∃ action next,step image system action=some next ∧ left next<left system := by
  have hbsp : (∀ i,system.bsp=.wait i → system.spinlock=false) →
      ∃ action next,step image system action=some next ∧ left next<left system := by
    intro hw
    refine ⟨.bsp,_,rfl,?_⟩
    have hless := remaining_bspStep h hd hw
    have hpending := (booting_bsp hf h).pending_lt
    rw [left,left]
    omega
  cases hb : system.bsp with
  | wait i =>
    have hcurrent := h.current
    rw [Current,hb] at hcurrent
    have hi := h.in_loop (by rw [hb]; rfl : round system.bsp=i) hd (by rw [hb]; simp)
      (by rw [hb]; simp) (by rw [hb]; simp) (by rw [hb]; simp)
    have hthere := hp i hi.1 hi.2
    cases hcurrent with
    | both hm ho hs =>
      have htold : Told image i (received image system ⟨i,.init⟩ i).place := received_init ho
      rw [Told,if_pos hthere] at htold
      refine ⟨.deliver 0,_,deliver_oldest hm,?_⟩
      simp only [left,pending,hb,hm,htold,ho,distance,List.length_cons,List.length_nil]
      omega
    | one hm ht hs =>
      have hnext : received image system ⟨i,.sipi 8⟩ i={system.ap i with place := .real 8} :=
        received_sipi ht hthere
      rw [Told,if_pos hthere] at ht
      refine ⟨.deliver 0,_,deliver_oldest hm,?_⟩
      simp only [left,pending,hb,hm,hnext,ht,distance,List.length_cons,List.length_nil]
      omega
    | nobody _ hn _ _ =>
      rw [hthere] at hn
      cases hn
    | runs hm hu hs =>
      obtain ⟨ap,memory,spinlock,hgoes,ha⟩ := h.advances hf hi hb hu
      refine ⟨.ap i false,system.went i ap memory spinlock,?_,?_⟩
      · have hstep : apStep image (system.identity || false) system.memory system.spinlock
            (system.ap i)=some (ap,memory,spinlock) := by
          rw [h.identity.mpr hd,Bool.true_or,hs]
          exact hgoes
        rw [step,hstep]
        rfl
      · have hnear := ha.nearer
        simp only [left,pending,System.went,hb,Function.update_self]
        omega
    | cleared _ _ hs => exact hbsp (fun _ _ => hs)
  | done => exact absurd hb hd
  | _ => exact hbsp (fun i hw => by rw [hb] at hw; cases hw)

/-- The boot can be brought to its end. -/
theorem Booting.ends (hf : image.Fits) (h : Booting image system)
    (hp : ∀ id,1≤ id → id<cpus → image.present id=true) :
    ∃ more done,run (step image) system more=some done ∧ done.bsp=.done := by
  induction hn : left system using Nat.strong_induction_on generalizing system with
  | _ n ih =>
    by_cases hd : system.bsp=.done
    · exact ⟨[],system,rfl,hd⟩
    · obtain ⟨action,next,hs,hlt⟩ := h.goes_on hf hp hd
      obtain ⟨more,done,hr,hdone⟩ :=
        ih (left next) (hn ▸ hlt) (booting_step hf _ _ _ h hs) rfl
      refine ⟨action::more,done,?_,hdone⟩
      rw [run,hs,Option.bind_some,hr]

end Progress

section Result

variable {image : Image} {system last : System}

/-- A boot that keeps the processors apart. -/
structure KeptApart (image : Image) (system : System) : Prop where
  /-- A processor with a stack has it in its own page, and its page tables and
  entry are those of the boot processor. -/
  own : ∀ id,OnStack (system.ap id).place → 1≤ id ∧ id<cpus ∧
    (system.ap id).cr3=image.cr3 ∧ (system.ap id).rax=image.apMain ∧
    0x8000+id*0x1000<(system.ap id).rsp ∧ (system.ap id).rsp≤0x9000+id*0x1000
  /-- One at a time is between its start and the store of the flag. -/
  single : ∀ first second,Underway (system.ap first).place →
    Underway (system.ap second).place → first=second
  /-- While one is, the boot processor waits for it. -/
  waited : ∀ id,Underway (system.ap id).place → system.bsp=.wait id ∧ system.spinlock=true
  /-- The boot processor gets past the loop when all are there and have
  cleared the flag. -/
  all : system.bsp=.unmap ∨ system.bsp=.done → ∀ id,1≤ id → id<cpus →
    image.present id=true ∧ Finished (system.ap id).place
  /-- No processor is lost before the mapping is removed. -/
  lost : ∀ id,(system.ap id).place=.faulted → system.bsp=.done

/-- A processor on its way is the one that is waited for. -/
theorem Booting.waited (h : Booting image system) {id : ℕ}
    (hu : Underway (system.ap id).place) : system.bsp=.wait id ∧ system.spinlock=true := by
  have hstep : apStep image true system.memory true (system.ap id)≠none := by
    intro hnone
    cases hp : (system.ap id).place with
    | off => rw [hp] at hu; cases hu
    | waiting => rw [hp] at hu; cases hu
    | returned => rw [hp] at hu; cases hu
    | faulted => rw [hp] at hu; cases hu
    | _ =>
      simp only [apStep,hp] at hnone
      cases hnone
  obtain ⟨-,-,-,⟨hb,-,-,hs⟩|hp⟩ := h.running hstep
  · exact ⟨hb,hs⟩
  · rw [hp] at hu
    cases hu

/-- The invariant keeps the processors apart. -/
theorem Booting.keptApart (h : Booting image system) : KeptApart image system where
  own := by
    intro id hs
    have hrange : ¬(id=0 ∨ round system.bsp< id ∨ cpus≤ id) := by
      intro hr
      rw [h.future id hr] at hs
      cases hs
    push Not at hrange
    have hid : 1≤ id := by omega
    have hheld := h.held id hid
    have hloaded : ∃ rsp,Loaded image (system.ap id) rsp ∧ stackTop id-16≤rsp ∧
        rsp≤ stackTop id := by
      cases hp : (system.ap id).place with
      | stacked => simp only [Held,hp] at hheld; exact ⟨_,hheld,Nat.sub_le _ _,le_rfl⟩
      | main => simp only [Held,hp] at hheld; exact ⟨_,hheld,Nat.sub_le _ _,le_rfl⟩
      | pushed => simp only [Held,hp] at hheld; exact ⟨_,hheld.1,le_rfl,Nat.sub_le _ _⟩
      | stage2 => simp only [Held,hp] at hheld; exact ⟨_,hheld,Nat.sub_le _ _,le_rfl⟩
      | called => simp only [Held,hp] at hheld; exact ⟨_,hheld.1,by omega,Nat.sub_le _ _⟩
      | booted => simp only [Held,hp] at hheld; exact ⟨_,hheld.1,by omega,Nat.sub_le _ _⟩
      | returned => simp only [Held,hp] at hheld; exact ⟨_,hheld,Nat.sub_le _ _,le_rfl⟩
      | _ =>
        rw [hp] at hs
        cases hs
    obtain ⟨rsp,hl,hlow,hhigh⟩ := hloaded
    refine ⟨hid,hrange.2.2,hl.cr3,hl.rax,?_,?_⟩
    · rw [hl.rsp]
      rw [stackTop] at hlow
      omega
    · rw [hl.rsp]
      exact hhigh
  single := by
    intro first second h1 h2
    have hfirst := (h.waited h1).1
    rw [(h.waited h2).1] at hfirst
    exact (Bsp.wait.inj hfirst).symm
  waited := fun _ hu => h.waited hu
  all := by
    intro hb id h1 h2
    have hround : round system.bsp=cpus := by
      rcases hb with hb|hb <;> rw [hb] <;> rfl
    have hfinished := h.past id h1 (by rw [hround]; exact h2)
    refine ⟨h.there id ?_,hfinished⟩
    intro ho
    rw [ho] at hfinished
    cases hfinished
  lost := h.lost

end Result

/-- Four processors and a short trampoline. -/
def sampleImage : Image where
  trampoline := List.replicate 16 0x90
  cr3 := 0x1f000
  apMain := 0xffffffff80001000
  apStage2 := 0xffffffff80001100
  booted := 0xffffffff80001120
  present := fun id => decide (id<4)

/-- Before the boot. -/
def sampleSystem : System :=
  ⟨.copy,fun _ => 0,false,0,[],true,fun _ => ⟨.off,0,0,0⟩⟩

/-- A round of the loop up to the store of the flag. -/
def sampleRound (id : ℕ) : List Action :=
  List.replicate 7 .bsp++[.deliver 0,.deliver 0]++List.replicate 8 (.ap id false)

/-- A boot in which the last processor returns from `set_booted` after the
mapping is removed. -/
def sampleBoot : List Action :=
  List.replicate 3 .bsp++sampleRound 1++[.bsp,.ap 1 false]++sampleRound 2++
    [.ap 2 false,.bsp]++sampleRound 3++[.bsp,.bsp,.ap 3 false]

/-- The boot of the application processors. In every interleaving of the boot
processor, the messages and the other processors, every processor runs on its
own stack with the page tables and the entry that were prepared, one at a time
is on its way, the boot processor waits for it, and none is lost before the
identity mapping is gone, which happens only when all are there and have
cleared the flag; and if all are there, the boot can be brought to its end. -/
theorem processors_kept_apart {image : Image} {system last : System} (hf : image.Fits)
    (h : Initial system) {actions : List Action}
    (hr : run (step image) system actions=some last) :
    KeptApart image last ∧ ((∀ id,1≤ id → id<cpus → image.present id=true) →
      ∃ more done,run (step image) last more=some done ∧ done.bsp=.done) := by
  have hbooting : Booting image last :=
    run_keeps (booting_step hf) (Initial.booting h) hr
  exact ⟨hbooting.keptApart,hbooting.ends hf⟩

/-- The last processor is lost, the others are not. -/
theorem processors_kept_apart_race : ∃ last,
    run (step sampleImage) sampleSystem sampleBoot=some last ∧ last.bsp=.done ∧
      (last.ap 2).place=.returned ∧ (last.ap 3).place=.faulted ∧
      KeptApart sampleImage last := by
  have hf : sampleImage.Fits := ⟨by decide,by decide,by decide,by decide,by decide⟩
  have hi : Initial sampleSystem := ⟨rfl,rfl,rfl,rfl,fun _ => rfl⟩
  have hrun : (run (step sampleImage) sampleSystem sampleBoot).map
      (fun last => (last.bsp,(last.ap 2).place,(last.ap 3).place))=
        some (.done,.returned,.faulted) := by decide +kernel
  obtain ⟨last,hlast,hfound⟩ := Option.map_eq_some_iff.mp hrun
  rw [Prod.mk.injEq,Prod.mk.injEq] at hfound
  exact ⟨last,hlast,hfound.1,hfound.2.1,hfound.2.2,(processors_kept_apart hf hi hlast).1⟩

end WorkbenchOS.ApplicationProcessors
