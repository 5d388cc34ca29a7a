import Mathlib

/-!
# Runs of partial transition systems

A step may fail to return, so it is a partial function of the state. A run
is a list of requested actions. `Each` constrains every action in the state
it is taken from, `Always` says that every step returns and every state
reached has a property. The invariant rules turn what one step does into a
statement about whole runs; `always_iff_each` is exact, and characterises
the runs along which a property holds.
-/

namespace WorkbenchOS.TransitionRuns

universe u v

variable {State : Type u} {Action : Type v}

/-- The state after all actions, unless one of the steps does not return. -/
def run (step : State→Action→Option State) : State→List Action→Option State
  | state,[] => some state
  | state,action::rest => (step state action).bind (fun next => run step next rest)

/-- The condition holds of every action in the state it is taken from. -/
def Each (step : State→Action→Option State) (condition : State→Action→Prop) :
    State→List Action→Prop
  | _,[] => True
  | state,action::rest => condition state action ∧
      ∀ next, step state action=some next → Each step condition next rest

/-- Every step returns and the property holds of every state reached, the
first and the last one included. -/
def Always (step : State→Action→Option State) (property : State→Prop) :
    State→List Action→Prop
  | state,[] => property state
  | state,action::rest => property state ∧
      ∃ next, step state action=some next ∧ Always step property next rest

instance decidableEach (step : State→Action→Option State) (condition : State→Action→Prop)
    [∀ state action, Decidable (condition state action)] :
    ∀ state actions, Decidable (Each step condition state actions)
  | _,[] => isTrue trivial
  | state,action::rest =>
    match h : step state action with
    | none => decidable_of_iff (condition state action) (by
        simp only [Each,h,reduceCtorEq,false_implies,implies_true,and_true])
    | some next =>
      have := decidableEach step condition next rest
      decidable_of_iff (condition state action ∧ Each step condition next rest) (by
        simp only [Each,h,Option.some.injEq,forall_eq'])

section

variable {step : State→Action→Option State} {condition : State→Action→Prop}
  {invariant : State→Prop}

/-- A run whose actions all meet the condition keeps the invariant in every
state it reaches, and never fails to return. -/
theorem always_of_each
    (hstep : ∀ state action, invariant state → condition state action →
      ∃ next, step state action=some next ∧ invariant next)
    {state : State} {actions : List Action} (h : invariant state)
    (hc : Each step condition state actions) : Always step invariant state actions := by
  induction actions generalizing state with
  | nil => exact h
  | cons action rest ih =>
    obtain ⟨next,hn,hi⟩ := hstep state action h hc.1
    exact ⟨h,next,hn,ih hi (hc.2 next hn)⟩

/-- What the invariant and the condition give in one state, they give at
every action of the run. -/
theorem each_of_each {consequence : State→Action→Prop}
    (hstep : ∀ state action, invariant state → condition state action →
      ∃ next, step state action=some next ∧ invariant next)
    (hq : ∀ state action, invariant state → condition state action →
      consequence state action)
    {state : State} {actions : List Action} (h : invariant state)
    (hc : Each step condition state actions) : Each step consequence state actions := by
  induction actions generalizing state with
  | nil => trivial
  | cons action rest ih =>
    refine ⟨hq state action h hc.1,?_⟩
    intro next hn
    obtain ⟨next',hn',hi⟩ := hstep state action h hc.1
    have he : next'=next := Option.some.inj (hn'.symm.trans hn)
    exact ih (he ▸ hi) (hc.2 next hn)

/-- What holds of a legal action exactly under the condition, in the states
the condition keeps, holds all along a legal run exactly when the condition
does. -/
theorem each_iff_each {legal holds : State→Action→Prop}
    (hkeep : ∀ state action, invariant state → legal state action → condition state action →
      ∀ next, step state action=some next → invariant next)
    (hiff : ∀ state action, invariant state → legal state action →
      (holds state action ↔ condition state action))
    {state : State} {actions : List Action} (h : invariant state)
    (hl : Each step legal state actions) :
    Each step holds state actions ↔ Each step condition state actions := by
  induction actions generalizing state with
  | nil => exact Iff.rfl
  | cons action rest ih =>
    have hhead := hiff state action h hl.1
    constructor
    · intro he
      have hc := hhead.mp he.1
      refine ⟨hc,?_⟩
      intro next hn
      exact (ih (hkeep state action h hl.1 hc next hn) (hl.2 next hn)).mp (he.2 next hn)
    · intro he
      refine ⟨hhead.mpr he.1,?_⟩
      intro next hn
      exact (ih (hkeep state action h hl.1 he.1 next hn) (hl.2 next hn)).mpr (he.2 next hn)

/-- In a family of systems that take the same steps, a condition that follows
from what holds of an action in all of them is met by every action of a run. -/
theorem each_of_forall_each {ι : Type*} {family : ι→State→Action→Option State}
    {holds : ι→State→Action→Prop}
    (hsame : ∀ i j state action, family i state action=family j state action)
    (hcondition : ∀ state action, invariant state → (∀ i, holds i state action) →
      condition state action)
    (hkeep : ∀ i state action, invariant state → condition state action →
      ∀ next, family i state action=some next → invariant next)
    {state : State} {actions : List Action} (h : invariant state)
    (he : ∀ i, Each (family i) (holds i) state actions) (i : ι) :
    Each (family i) condition state actions := by
  induction actions generalizing state with
  | nil => trivial
  | cons action rest ih =>
    have hc := hcondition state action h (fun j => (he j).1)
    refine ⟨hc,?_⟩
    intro next hn
    refine ih (hkeep i state action h hc next hn) (fun j => ?_)
    exact (he j).2 next ((hsame j i state action).trans hn)

/-- A run that always has a property has it at its start. -/
theorem Always.head {property : State→Prop} {state : State} {actions : List Action}
    (h : Always step property state actions) : property state := by
  cases actions with
  | nil => exact h
  | cons => exact h.1

/-- The exact rule. When a legal step keeps the invariant under the
condition and loses the property without it, the property holds along a
legal run precisely when each of its steps meets the condition. -/
theorem always_iff_each {property : State→Prop} {legal : State→Action→Prop}
    (hproperty : ∀ state, invariant state → property state)
    (hkeep : ∀ state action, invariant state → legal state action → condition state action →
      ∃ next, step state action=some next ∧ invariant next)
    (hlose : ∀ state action, invariant state → legal state action → ¬condition state action →
      ∀ next, step state action=some next → ¬property next)
    {state : State} {actions : List Action} (h : invariant state)
    (hl : Each step legal state actions) :
    Always step property state actions ↔ Each step condition state actions := by
  induction actions generalizing state with
  | nil => exact ⟨fun _ => trivial,fun _ => hproperty state h⟩
  | cons action rest ih =>
    constructor
    · rintro ⟨-,next,hn,ha⟩
      have hp : property next := ha.head
      have hc : condition state action := by
        by_contra hno
        exact hlose state action h hl.1 hno next hn hp
      refine ⟨hc,?_⟩
      intro next' hn'
      obtain ⟨kept,hk,hi⟩ := hkeep state action h hl.1 hc
      have he : next=next' := Option.some.inj (hn.symm.trans hn')
      have he' : kept=next := Option.some.inj (hk.symm.trans hn)
      subst he he'
      exact (ih hi (hl.2 kept hk)).mp ha
    · intro hc
      obtain ⟨next,hn,hi⟩ := hkeep state action h hl.1 hc.1
      exact ⟨hproperty state h,next,hn,(ih hi (hl.2 next hn)).mpr (hc.2 next hn)⟩

/-- The last state of a run that always has a property has it too. -/
theorem Always.final {property : State→Prop} {state : State} {actions : List Action}
    (h : Always step property state actions) :
    ∃ last, run step state actions=some last ∧ property last := by
  induction actions generalizing state with
  | nil => exact ⟨state,rfl,h⟩
  | cons action rest ih =>
    obtain ⟨-,next,hn,ha⟩ := h
    obtain ⟨last,hl,hp⟩ := ih ha
    exact ⟨last,by rw [run,hn,Option.bind_some,hl],hp⟩

/-- A run of two lists of actions is one run after the other. -/
theorem run_append {state : State} (first second : List Action) :
    run step state (first++second)=
      (run step state first).bind (fun reached => run step reached second) := by
  induction first generalizing state with
  | nil => rfl
  | cons action rest ih =>
    rw [List.cons_append,run,run,Option.bind_assoc]
    exact congrArg _ (funext fun next => ih)

/-- Weaken a property of every state of a run. -/
theorem Always.imp {property weaker : State→Prop} (hw : ∀ state, property state → weaker state)
    {state : State} {actions : List Action} (h : Always step property state actions) :
    Always step weaker state actions := by
  induction actions generalizing state with
  | nil => exact hw state h
  | cons action rest ih =>
    obtain ⟨hp,next,hn,ha⟩ := h
    exact ⟨hw state hp,next,hn,ih ha⟩

/-- A condition on the actions alone holds along any run of them. -/
theorem each_of_forall {allowed : Action→Prop} {actions : List Action}
    (h : ∀ action∈actions,allowed action) (state : State) :
    Each step (fun _ action => allowed action) state actions := by
  induction actions generalizing state with
  | nil => trivial
  | cons action rest ih =>
    obtain ⟨ha,hr⟩ := List.forall_mem_cons.mp h
    exact ⟨ha,fun next _ => ih hr next⟩

/-- What every step that meets the condition keeps, a run of such steps that
returns keeps. -/
theorem run_keeps_of_each
    (hstep : ∀ state action next, invariant state → condition state action →
      step state action=some next → invariant next)
    {state last : State} {actions : List Action} (h : invariant state)
    (hc : Each step condition state actions) (hr : run step state actions=some last) :
    invariant last := by
  induction actions generalizing state with
  | nil =>
    cases hr
    exact h
  | cons action rest ih =>
    rw [run] at hr
    obtain ⟨next,hn,hrest⟩ := Option.bind_eq_some_iff.mp hr
    exact ih (hstep state action next h hc.1 hn) (hc.2 next hn) hrest

/-- What every step keeps, a run that returns keeps. -/
theorem run_keeps (hstep : ∀ state action next, invariant state → step state action=some next →
      invariant next) {state last : State} {actions : List Action} (h : invariant state)
    (hr : run step state actions=some last) : invariant last :=
  run_keeps_of_each (fun state action next hi _ hn => hstep state action next hi hn) h
    (each_of_forall (fun _ _ => trivial) state) hr

/-- The condition holds of an action in the state the actions before it lead
to. -/
theorem Each.last {state reached : State} {front : List Action} {action : Action}
    (h : Each step condition state (front++[action]))
    (hr : run step state front=some reached) : condition reached action := by
  induction front generalizing state with
  | nil =>
    cases hr
    exact h.1
  | cons first rest ih =>
    rw [run] at hr
    obtain ⟨next,hn,hrest⟩ := Option.bind_eq_some_iff.mp hr
    exact ih (h.2 next hn) hrest

/-- Two conditions on every action of a run combine. -/
theorem Each.and {other : State→Action→Prop} {state : State} {actions : List Action}
    (h : Each step condition state actions) (k : Each step other state actions) :
    Each step (fun s a => condition s a ∧ other s a) state actions := by
  induction actions generalizing state with
  | nil => trivial
  | cons action rest ih =>
    exact ⟨⟨h.1,k.1⟩,fun next hn => ih (h.2 next hn) (k.2 next hn)⟩

end

end WorkbenchOS.TransitionRuns
