import Mathlib

/-! Chases: a turn that ends with a result or goes on to another node, taken again and again. -/

namespace Chase

open Relation

variable {Node Result : Type} {turn : Node → Result ⊕ Node} {node next start : Node} {fuel : Nat}

/-- The result after at most `fuel` turns. -/
def run (turn : Node → Result ⊕ Node) : (fuel : Nat) → Node → Option Result
  | 0, _ => none
  | fuel + 1, node =>
    match turn node with
    | .inl result => some result
    | .inr next => run turn fuel next

/-- A turn goes on to another node. -/
def Leads (turn : Node → Result ⊕ Node) (node next : Node) : Prop := turn node = .inr next

/-- Finitely many turns come to a result. -/
def Returns (turn : Node → Result ⊕ Node) (start : Node) : Prop := ∃ fuel result, run turn fuel start = some result

/-- The way from `start` runs into a cycle. -/
def Circles (turn : Node → Result ⊕ Node) (start : Node) : Prop :=
  ∃ node, ReflTransGen (Leads turn) start node ∧ TransGen (Leads turn) node node

theorem run_last (last : turn node = .inl result) : run turn (fuel + 1) node = some result := by
  rw [run, last]

theorem run_leads (leads : Leads turn node next) : run turn (fuel + 1) node = run turn fuel next := by
  rw [run, leads]

theorem acc_of_run (ends : run turn fuel start = some result) : Acc (Function.swap (Leads turn)) start := by
  induction fuel generalizing start with
  | zero => cases ends
  | succ fuel ih =>
    apply Acc.intro start
    intro next leads
    rw [run_leads leads] at ends
    exact ih ends

theorem returns_of_acc (accessible : Acc (Function.swap (Leads turn)) start) : Returns turn start := by
  induction accessible with
  | intro node _ ih =>
    cases taken : turn node with
    | inl result => exact ⟨1, result, run_last taken⟩
    | inr next =>
      obtain ⟨fuel, result, ends⟩ := ih next taken
      exact ⟨fuel + 1, result, (run_leads taken).trans ends⟩

theorem not_circles_of_acc (accessible : Acc (Function.swap (Leads turn)) start) : ¬Circles turn start := by
  induction accessible with
  | intro node _ ih =>
    intro ⟨target, reached, cycle⟩
    rcases reached.cases_head with rfl | ⟨next, leads, onward⟩
    · obtain ⟨next, leads, back⟩ := TransGen.head'_iff.mp cycle
      exact ih next leads ⟨node, back, cycle⟩
    · exact ih next leads ⟨target, onward, cycle⟩

/-- Among finitely many nodes, what never comes to a result runs into a cycle. -/
theorem acc_of_not_circles [Finite Node] (straight : ¬Circles turn start) :
    Acc (Function.swap (Leads turn)) start := by
  let Reached := { node : Node // ReflTransGen (Leads turn) start node }
  let Behind (later earlier : Reached) : Prop := TransGen (Leads turn) earlier.1 later.1
  have : IsTrans Reached Behind := ⟨fun _ _ _ first second => second.trans first⟩
  have : Std.Irrefl Behind := ⟨fun node cycle => straight ⟨node.1, node.2, cycle⟩⟩
  have founded : WellFounded Behind := Finite.wellFounded_of_trans_of_irrefl Behind
  have accessible (node : Reached) : Acc (Function.swap (Leads turn)) node.1 := by
    induction node using founded.induction with
    | _ node ih => exact Acc.intro _ fun next leads => ih ⟨next, node.2.tail leads⟩ (.single leads)
  exact accessible ⟨start, .refl⟩

/-- A chase among finitely many nodes comes to a result exactly where it runs into no cycle. -/
theorem returns_iff [Finite Node] : Returns turn start ↔ ¬Circles turn start := by
  constructor
  · intro ⟨_, _, ends⟩
    exact not_circles_of_acc (acc_of_run ends)
  · intro straight
    exact returns_of_acc (acc_of_not_circles straight)

end Chase
