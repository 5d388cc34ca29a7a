import WorkbenchOS.TransitionRuns

/-!
# Forward simulations of partial transition systems

One system is described by another when each of its legal steps is matched by
a run of legal steps of the other, of any length, none included. Whole runs
are then matched by whole runs. The relation between the states is a
parameter, so the two may keep their state in different forms and a step of
the one may stand for many of the other.
-/

namespace WorkbenchOS.Simulations

open TransitionRuns

universe u v w x

variable {State : Type u} {Action : Type v} {Spec : Type w} {Command : Type x}
  {step : State→Action→Option State} {legal : State→Action→Prop}
  {spec : Spec→ Command→Option Spec} {allowed : Spec→ Command→Prop}
  {related : State→Spec→Prop}

/-- A legal run from one state of a system to another. -/
def Leads (spec : Spec→ Command→Option Spec) (allowed : Spec→ Command→Prop) (first last : Spec) :
    Prop :=
  ∃ commands,Each spec allowed first commands ∧ run spec first commands=some last

/-- Every legal step is matched by a legal run that ends in a related state. -/
def Simulates (step : State→Action→Option State) (legal : State→Action→Prop)
    (spec : Spec→ Command→Option Spec) (allowed : Spec→ Command→Prop)
    (related : State→Spec→Prop) : Prop :=
  ∀ state action next shadow,related state shadow → legal state action →
    step state action=some next → ∃ after,Leads spec allowed shadow after ∧ related next after

/-- No step at all is a run. -/
theorem Leads.refl (state : Spec) : Leads spec allowed state state := ⟨[],trivial,rfl⟩

/-- One legal step is. -/
theorem Leads.single {first last : Spec} {command : Command} (hl : allowed first command)
    (hs : spec first command=some last) : Leads spec allowed first last := by
  refine ⟨[command],⟨hl,fun _ _ => trivial⟩,?_⟩
  rw [run,hs]
  rfl

/-- Legal actions stay legal behind a run that leads there. -/
theorem each_append {first middle : Spec} {front back : List Command}
    (hf : Each spec allowed first front) (hr : run spec first front=some middle)
    (hb : Each spec allowed middle back) : Each spec allowed first (front++back) := by
  induction front generalizing first with
  | nil =>
    cases hr
    exact hb
  | cons command rest ih =>
    rw [run] at hr
    obtain ⟨next,hn,hrest⟩ := Option.bind_eq_some_iff.mp hr
    refine ⟨hf.1,?_⟩
    intro next' hn'
    have he : next=next' := Option.some.inj (hn.symm.trans hn')
    subst he
    exact ih (hf.2 next hn) hrest

/-- One run after another. -/
theorem Leads.trans {first middle last : Spec} (h : Leads spec allowed first middle)
    (k : Leads spec allowed middle last) : Leads spec allowed first last := by
  obtain ⟨front,hf,hrf⟩ := h
  obtain ⟨back,hb,hrb⟩ := k
  refine ⟨front++back,each_append hf hrf hb,?_⟩
  rw [run_append,hrf]
  exact hrb

/-- What every legal step keeps stands at the end of the run. -/
theorem Leads.keeps {invariant : Spec→Prop}
    (hstep : ∀ state command next,invariant state → allowed state command →
      spec state command=some next → invariant next)
    {first last : Spec} (h : Leads spec allowed first last) (hi : invariant first) :
    invariant last := by
  obtain ⟨commands,hl,hr⟩ := h
  exact run_keeps_of_each hstep hi hl hr

/-- A legal run is matched by a legal run. -/
theorem Simulates.run (h : Simulates step legal spec allowed related) {state last : State}
    {shadow : Spec} {actions : List Action} (hs : related state shadow)
    (hl : Each step legal state actions) (hr : TransitionRuns.run step state actions=some last) :
    ∃ after,Leads spec allowed shadow after ∧ related last after := by
  induction actions generalizing state shadow with
  | nil =>
    cases hr
    exact ⟨shadow,Leads.refl shadow,hs⟩
  | cons action rest ih =>
    rw [TransitionRuns.run] at hr
    obtain ⟨next,hn,hrest⟩ := Option.bind_eq_some_iff.mp hr
    obtain ⟨middle,hlead,hmiddle⟩ := h state action next shadow hs hl.1 hn
    obtain ⟨after,hlast,hafter⟩ := ih hmiddle (hl.2 next hn) hrest
    exact ⟨after,hlead.trans hlast,hafter⟩

end WorkbenchOS.Simulations
