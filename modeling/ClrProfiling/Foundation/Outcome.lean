import Mathlib

/-! Runs in the error monad: how a sequence, a loop or a map over a list succeeds. -/

namespace Outcome

universe u v

variable {Error : Type u} {Result Value State Item : Type v}

theorem bind_eq_ok_iff {first : Except Error Result} {second : Result → Except Error Value} :
    (first >>= second) = .ok value ↔ ∃ result, first = .ok result ∧ second result = .ok value := by
  cases first with
  | error error => simp [bind, Except.bind]
  | ok result => simp [bind, Except.bind]

theorem bind_eq_error_iff {first : Except Error Result} {second : Result → Except Error Value} :
    (first >>= second) = .error error ↔
      first = .error error ∨ ∃ result, first = .ok result ∧ second result = .error error := by
  cases first with
  | error error => simp [bind, Except.bind]
  | ok result => simp [bind, Except.bind]

@[simp] theorem ok_bind (result : Result) (second : Result → Except Error Value) :
    (Except.ok result >>= second) = second result := rfl

@[simp] theorem error_bind (error : Error) (second : Result → Except Error Value) :
    (Except.error error >>= second) = .error error := rfl

theorem pure_eq (result : Result) : (pure result : Except Error Result) = .ok result := rfl

theorem guard_eq_ok_iff {check : Prop} [Decidable check] {error : Error} {rest : Except Error Value} :
    (if check then .error error else rest) = .ok value ↔ ¬check ∧ rest = .ok value := by
  by_cases failed : check <;> simp [failed]

theorem guard_eq_error_iff {check : Prop} [Decidable check] {failed : Error} {rest : Except Error Value} :
    (if check then .error failed else rest) = .error error ↔
      check ∧ failed = error ∨ ¬check ∧ rest = .error error := by
  by_cases holds : check <;> simp [holds]

/-- A map succeeds item by item. -/
theorem mapM_eq_ok_iff {convert : Item → Except Error Value} {items : List Item} {values : List Value} :
    items.mapM convert = .ok values ↔ List.Forall₂ (fun item value => convert item = .ok value) items values := by
  induction items generalizing values with
  | nil => cases values <;> simp [pure, Except.pure]
  | cons item rest ih =>
    simp only [List.mapM_cons, bind_eq_ok_iff, pure_eq, ih, Except.ok.injEq]
    constructor
    · rintro ⟨value, first, values, others, rfl⟩
      exact .cons first others
    · rintro (_ | ⟨first, others⟩)
      exact ⟨_, first, _, others, rfl⟩

/-- A map that fails fails at an item. -/
theorem mapM_eq_error {convert : Item → Except Error Value} {items : List Item} {error : Error}
    (run : items.mapM convert = .error error) : ∃ item, convert item = .error error := by
  induction items with
  | nil => cases run
  | cons item rest ih =>
    rw [List.mapM_cons] at run
    rcases bind_eq_error_iff.mp run with failed | ⟨value, -, later⟩
    · exact ⟨item, failed⟩
    · rcases bind_eq_error_iff.mp later with failed | ⟨_, -, done⟩
      · exact ih failed
      · cases done

theorem foldlM_eq_error {step : State → Item → Except Error State} {items : List Item} {state : State} {error : Error}
    (run : items.foldlM step state = .error error) : ∃ middle item, step middle item = .error error := by
  induction items generalizing state with
  | nil => cases run
  | cons item rest ih =>
    rw [List.foldlM_cons] at run
    rcases bind_eq_error_iff.mp run with failed | ⟨next, -, later⟩
    · exact ⟨state, item, failed⟩
    · exact ih later

end Outcome
