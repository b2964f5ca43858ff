import Mathlib

/-! Runs of labelled transition systems, and what holds along them. -/

namespace Transition

variable {State Label : Type} {step : State → Label → State → Prop}

/-- A run from one state to another, with the labels of its steps. -/
inductive Run (step : State → Label → State → Prop) (start : State) : List Label → State → Prop
  | nil : Run step start [] start
  | snoc (run : Run step start labels s) (last : step s label s') : Run step start (labels ++ [label]) s'

/-- What holds at the start and is kept by every step holds behind every run, with its history. -/
theorem Run.invariant {start : State} (invariant : List Label → State → Prop) (initial : invariant [] start)
    (kept : ∀ labels s label s', invariant labels s → step s label s' → invariant (labels ++ [label]) s')
    {labels : List Label} {s : State} (run : Run step start labels s) : invariant labels s := by
  induction run with
  | nil => exact initial
  | snoc run last ih => exact kept _ _ _ _ ih last

theorem Run.append {start middle s : State} {first second : List Label} (early : Run step start first middle)
    (late : Run step middle second s) : Run step start (first ++ second) s := by
  induction late with
  | nil =>
    rw [List.append_nil]
    exact early
  | snoc run last ih =>
    rw [← List.append_assoc]
    exact ih.snoc last

theorem Run.single {s s' : State} {label : Label} (taken : step s label s') : Run step s [label] s' :=
  Run.nil.snoc taken

/-- Every label of a history is allowed behind those in front of it. -/
def Along (allowed : List Label → Label → Prop) (labels : List Label) : Prop :=
  ∀ before label after, labels = before ++ label :: after → allowed before label

theorem along_nil (allowed : List Label → Label → Prop) : Along allowed [] :=
  fun _ _ _ none => absurd none.symm (by simp)

theorem along_snoc {allowed : List Label → Label → Prop} {labels : List Label} {label : Label} :
    Along allowed (labels ++ [label]) ↔ Along allowed labels ∧ allowed labels label := by
  constructor
  · intro along
    refine ⟨fun before other after split => along before other (after ++ [label]) ?_, along labels label [] rfl⟩
    rw [split, List.append_assoc, List.cons_append]
  · rintro ⟨along, last⟩ before other after split
    rcases after.eq_nil_or_concat with rfl | ⟨others, final, rfl⟩
    · obtain ⟨rfl, same⟩ := List.append_inj' split rfl
      cases same
      exact last
    · rw [List.concat_eq_append, ← List.cons_append, ← List.append_assoc] at split
      obtain ⟨rfl, -⟩ := List.append_inj' split rfl
      exact along before other others rfl

end Transition
