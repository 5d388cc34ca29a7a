import Mathlib

/-!
# Walks along chains

A chain is a partial successor function. A walk follows it until there is no
successor, and nothing bounds how long that takes: when finitely many nodes
have a successor, a walk stops exactly if it enters no cycle, and then after
no more steps than there are such nodes.
-/

namespace WorkbenchOS.ChainWalks

open Relation

universe u

variable {Node : Type u} (next : Node → Option Node)

/-- The node a number of steps away, unless the walk stops before. -/
def after : ℕ→Node → Option Node
  | 0,node => some node
  | steps+1,node => (next node).bind (after steps)

/-- One step of a walk. -/
def Step (node other : Node) : Prop := next node=some other

/-- The walk comes to a node that it comes back to. -/
def EntersCycle (node : Node) : Prop :=
  ∃ entry,ReflTransGen (Step next) node entry ∧ TransGen (Step next) entry entry

/-- The walk stops. -/
def Stops (node : Node) : Prop := ∃ steps,after next steps node=none

variable {next}

@[simp] theorem after_zero (node : Node) : after next 0 node=some node := rfl

/-- The first step of several. -/
theorem after_succ (steps : ℕ) (node : Node) :
    after next (steps+1) node=(next node).bind (after next steps) := rfl

/-- Steps in two parts. -/
theorem after_add (first second : ℕ) (node : Node) :
    after next (first+second) node=(after next first node).bind (after next second) := by
  induction first generalizing node with
  | zero => rw [Nat.zero_add,after_zero,Option.bind_some]
  | succ first ih =>
    rw [Nat.add_right_comm,after_succ,after_succ,Option.bind_assoc]
    exact Option.bind_congr (fun other _ => ih other)

/-- A walk that has stopped does not go on. -/
theorem after_none_mono {few many : ℕ} {node : Node} (h : after next few node=none)
    (hle : few≤ many) : after next many node=none := by
  obtain ⟨more,rfl⟩ := Nat.exists_eq_add_of_le hle
  rw [after_add,h,Option.bind_none]

/-- What is some steps away is reached by the step relation. -/
theorem reflTransGen_of_after {steps : ℕ} {node other : Node}
    (h : after next steps node=some other) : ReflTransGen (Step next) node other := by
  induction steps generalizing node with
  | zero => exact Option.some.inj h▸.refl
  | succ steps ih =>
    obtain ⟨middle,hstep,hrest⟩ := Option.bind_eq_some_iff.mp h
    exact .head hstep (ih hrest)

/-- At least one step away, it is reached by at least one step. -/
theorem transGen_of_after {steps : ℕ} {node other : Node}
    (h : after next (steps+1) node=some other) : TransGen (Step next) node other := by
  obtain ⟨middle,hstep,hrest⟩ := Option.bind_eq_some_iff.mp h
  exact .head' hstep (reflTransGen_of_after hrest)

/-- A node on the way into a cycle has a successor, on the same way. -/
theorem EntersCycle.goes_on {node : Node} (h : EntersCycle next node) :
    ∃ other,next node=some other ∧ EntersCycle next other := by
  obtain ⟨entry,hreach,hcycle⟩ := h
  rcases hreach.cases_head with rfl|⟨other,hstep,hrest⟩
  · obtain ⟨other,hstep,hback⟩ := TransGen.head'_iff.mp hcycle
    exact ⟨other,hstep,node,hback,hcycle⟩
  · exact ⟨other,hstep,entry,hrest,hcycle⟩

/-- A walk into a cycle does not stop. -/
theorem EntersCycle.after_ne_none {node : Node} (h : EntersCycle next node) (steps : ℕ) :
    after next steps node≠none := by
  induction steps generalizing node with
  | zero => exact Option.some_ne_none node
  | succ steps ih =>
    obtain ⟨other,hstep,hother⟩ := h.goes_on
    rw [after_succ,hstep,Option.bind_some]
    exact ih hother

/-- A walk of more steps than there are nodes with a successor is in a cycle. -/
theorem entersCycle_of_long (nodes : Finset Node) (hnodes : ∀ node, next node≠none → node∈nodes)
    {node : Node} (h : after next (nodes.card+1) node≠none) : EntersCycle next node := by
  -- every node passed has a successor, so two of them are the same
  have hpass : ∀ steps : Fin (nodes.card+1), ∃ other∈nodes,after next steps node=some other := by
    intro steps
    have hsplit : nodes.card+1=steps+((nodes.card-steps)+1) := by omega
    rw [hsplit,after_add] at h
    have hsome : after next steps node≠none := fun hnone => h (by rw [hnone,Option.bind_none])
    obtain ⟨other,hother⟩ := Option.ne_none_iff_exists'.mp hsome
    refine ⟨other,hnodes other (fun hnone => h ?_),hother⟩
    rw [hother,Option.bind_some,after_succ,hnone,Option.bind_none]
  choose passed hmem hpassed using hpass
  obtain ⟨first,_,second,_,hne,hsame⟩ := Finset.exists_ne_map_eq_of_card_lt_of_maps_to
    (by rw [Finset.card_univ,Fintype.card_fin]; omega)
    (fun steps _ => hmem steps : ∀ steps∈(Finset.univ : Finset (Fin (nodes.card+1))),
      passed steps∈nodes)
  -- the later one is reached from the earlier one
  have hback : ∀ low high : Fin (nodes.card+1), low<high → passed low=passed high →
      EntersCycle next node := by
    intro low high hlt heq
    have hsplit : (high : ℕ)=low+((high-low-1)+1) := by omega
    have hlater := hpassed high
    rw [hsplit,after_add,hpassed low,Option.bind_some,← heq] at hlater
    exact ⟨passed low,reflTransGen_of_after (hpassed low),transGen_of_after hlater⟩
  rcases lt_or_gt_of_ne hne with hlt|hlt
  · exact hback first second hlt hsame
  · exact hback second first hlt hsame.symm

/-- A walk that enters no cycle stops within the nodes with a successor. -/
theorem after_eq_none (nodes : Finset Node) (hnodes : ∀ node, next node≠none → node∈nodes)
    {node : Node} (h : ¬EntersCycle next node) : after next (nodes.card+1) node=none := by
  by_contra hlong
  exact h (entersCycle_of_long nodes hnodes hlong)

/-- When finitely many nodes have a successor, a walk stops exactly if it
enters no cycle. -/
theorem stops_iff (nodes : Finset Node) (hnodes : ∀ node, next node≠none → node∈nodes)
    (node : Node) : Stops next node ↔ ¬EntersCycle next node :=
  ⟨fun ⟨steps,hstop⟩ hcycle => hcycle.after_ne_none steps hstop,
    fun h => ⟨_,after_eq_none nodes hnodes h⟩⟩

end WorkbenchOS.ChainWalks
