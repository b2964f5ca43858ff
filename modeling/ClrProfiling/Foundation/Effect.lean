import Mathlib

/-! Computations over a state that may stop with an exception. What was done to the state
before the exception stays done. -/

/-- A computation from a state to a result or an exception, and the state behind it. -/
def Effect (State Thrown Result : Type) : Type := State → Except Thrown Result × State

namespace Effect

variable {State Thrown Result Value Item : Type}

instance : Monad (Effect State Thrown) where
  pure result := fun s => (.ok result, s)
  bind first second := fun s =>
    match first s with
    | (.ok result, s') => second result s'
    | (.error thrown, s') => (.error thrown, s')

def raise (thrown : Thrown) : Effect State Thrown Result := fun s => (.error thrown, s)

def handle (action : Effect State Thrown Result) (handler : Thrown → Effect State Thrown Result) :
    Effect State Thrown Result := fun s =>
  match action s with
  | (.ok result, s') => (.ok result, s')
  | (.error thrown, s') => handler thrown s'

def get : Effect State Thrown State := fun s => (.ok s, s)

def modify (change : State → State) : Effect State Thrown Unit := fun s => (.ok (), change s)

section Runs

variable {first action : Effect State Thrown Result} {second : Result → Effect State Thrown Value}

@[simp] theorem pure_run (result : Result) (s : State) :
    (pure result : Effect State Thrown Result) s = (.ok result, s) := rfl

@[simp] theorem raise_run (thrown : Thrown) (s : State) :
    (raise thrown : Effect State Thrown Result) s = (.error thrown, s) := rfl

@[simp] theorem get_run (s : State) : (get : Effect State Thrown State) s = (.ok s, s) := rfl

@[simp] theorem modify_run (change : State → State) (s : State) :
    (modify change : Effect State Thrown Unit) s = (.ok (), change s) := rfl

theorem bind_of_ok (run : first s = (.ok result, s')) : (first >>= second) s = second result s' := by
  change (match first s with | (.ok result, s') => _ | (.error thrown, s') => _) = _
  rw [run]

theorem bind_of_error (run : first s = (.error thrown, s')) : (first >>= second) s = (.error thrown, s') := by
  change (match first s with | (.ok result, s') => _ | (.error thrown, s') => _) = _
  rw [run]

theorem run_of_result (outcome : (action s).1.toOption = some result) : action s = (.ok result, (action s).2) := by
  generalize action s = ending at outcome ⊢
  obtain ⟨thrown | made, s'⟩ := ending
  · cases outcome
  · cases outcome
    rfl

theorem bind_eq_ok_iff : (first >>= second) s = (.ok value, s') ↔
    ∃ result middle, first s = (.ok result, middle) ∧ second result middle = (.ok value, s') := by
  rcases run : first s with ⟨_ | result, middle⟩
  · rw [bind_of_error run]
    simp
  · rw [bind_of_ok run]
    simp

end Runs

theorem bind_assoc {Last : Type} (first : Effect State Thrown Result) (second : Result → Effect State Thrown Value)
    (third : Value → Effect State Thrown Last) :
    (first >>= second) >>= third = first >>= fun result => second result >>= third := by
  funext s
  rcases run : first s with ⟨_ | result, middle⟩
  · rw [bind_of_error run, bind_of_error (bind_of_error run)]
  · rw [bind_of_ok run]
    rcases last : second result middle with ⟨_ | value, behind⟩
    · rw [bind_of_error last, bind_of_error ((bind_of_ok run).trans last)]
    · rw [bind_of_ok last, bind_of_ok ((bind_of_ok run).trans last)]

theorem pure_bind (result : Result) (second : Result → Effect State Thrown Value) :
    (pure result >>= second : Effect State Thrown Value) = second result := rfl

section Moves

/-- The state behind the computation is related to the one before, however it ends. -/
structure Moves (related : State → State → Prop) (action : Effect State Thrown Result) : Prop where
  step : ∀ s, related s (action s).2

variable {related : State → State → Prop} {first action : Effect State Thrown Result}
  {second : Result → Effect State Thrown Value}

theorem Moves.pure [Std.Refl related] (result : Result) :
    Moves related (Pure.pure result : Effect State Thrown Result) :=
  ⟨Std.Refl.refl⟩

theorem Moves.raise [Std.Refl related] (thrown : Thrown) : Moves related (raise thrown : Effect State Thrown Result) :=
  ⟨Std.Refl.refl⟩

/-- A sequence whose second part starts where the first one comes back. -/
theorem Moves.through [IsTrans State related] (early : Moves related first)
    (late : ∀ s result s', first s = (.ok result, s') → related s' (second result s').2) :
    Moves related (first >>= second) where
  step := by
    intro s
    have moved := early.step s
    rcases run : first s with ⟨_ | result, middle⟩
    · rw [run] at moved
      rw [bind_of_error run]
      exact moved
    · rw [run] at moved
      rw [bind_of_ok run]
      exact IsTrans.trans _ _ _ moved (late s result middle run)

theorem Moves.bind [IsTrans State related] (early : Moves related first)
    (late : ∀ result, Moves related (second result)) :
    Moves related (first >>= second) :=
  early.through fun _ result s' _ => (late result).step s'

theorem Moves.ite {condition : Prop} [Decidable condition] {other : Effect State Thrown Result}
    (yes : Moves related action) (no : Moves related other) : Moves related (if condition then action else other) := by
  split
  · exact yes
  · exact no

theorem Moves.get [Std.Refl related] : Moves related (get : Effect State Thrown State) := ⟨Std.Refl.refl⟩

/-- A handler goes on from the state in which the computation has stopped. -/
theorem Moves.handle [IsTrans State related] {handler : Thrown → Effect State Thrown Result}
    (early : Moves related action) (late : ∀ thrown, Moves related (handler thrown)) :
    Moves related (handle action handler) where
  step := by
    intro s
    have moved := early.step s
    unfold Effect.handle
    rcases run : action s with ⟨thrown | result, middle⟩
    · rw [run] at moved
      exact IsTrans.trans _ _ _ moved ((late thrown).step middle)
    · rw [run] at moved
      exact moved

theorem Moves.forM [Std.Refl related] [IsTrans State related] {items : List Item}
    {turn : Item → Effect State Thrown Unit} (turns : ∀ item, Moves related (turn item)) :
    Moves related (items.forM turn) := by
  induction items with
  | nil => exact Moves.pure ()
  | cons item rest ih => exact (turns item).bind fun _ => ih

end Moves

section Returns

/-- The computation comes back from a state, with a result and a state as wanted. -/
def Returns (action : Effect State Thrown Result) (s : State) (wanted : Result → State → Prop) : Prop :=
  ∃ result s', action s = (.ok result, s') ∧ wanted result s'

variable {first action : Effect State Thrown Result} {second : Result → Effect State Thrown Value}
  {wanted : Result → State → Prop} {later : Value → State → Prop}

theorem Returns.pure (holds : wanted result s) : Returns (Pure.pure result : Effect State Thrown Result) s wanted :=
  ⟨result, s, rfl, holds⟩

theorem Returns.bind (early : Returns first s fun result s' => Returns (second result) s' later) :
    Returns (first >>= second) s later := by
  obtain ⟨result, middle, run, value, s', late, holds⟩ := early
  exact ⟨value, s', (bind_of_ok run).trans late, holds⟩

theorem Returns.imp {weaker : Result → State → Prop} (returns : Returns action s wanted)
    (implies : ∀ result s', wanted result s' → weaker result s') : Returns action s weaker := by
  obtain ⟨result, s', run, holds⟩ := returns
  exact ⟨result, s', run, implies result s' holds⟩

end Returns

section Ends

/-- What holds of the outcome: of a result, or of what stops the computation, and of the state
that is left. -/
def Ends (action : Effect State Thrown Result) (s : State) (wanted : Result → State → Prop)
    (stopped : Thrown → State → Prop) : Prop :=
  match action s with
  | (.ok result, s') => wanted result s'
  | (.error thrown, s') => stopped thrown s'

variable {first action : Effect State Thrown Result} {second : Result → Effect State Thrown Value}
  {wanted : Result → State → Prop} {later : Value → State → Prop} {stopped : Thrown → State → Prop}

theorem Ends.ok (ends : Ends action s wanted stopped) (run : action s = (.ok result, s')) : wanted result s' := by
  rw [Ends, run] at ends
  exact ends

theorem Ends.error (ends : Ends action s wanted stopped) (run : action s = (.error thrown, s')) :
    stopped thrown s' := by
  rw [Ends, run] at ends
  exact ends

theorem Returns.ends (returns : Returns action s wanted) : Ends action s wanted stopped := by
  obtain ⟨result, s', run, holds⟩ := returns
  rw [Ends, run]
  exact holds

theorem Ends.pure (holds : wanted result s) :
    Ends (Pure.pure result : Effect State Thrown Result) s wanted stopped := holds

theorem Ends.bind_iff : Ends (first >>= second) s later stopped ↔
    Ends first s (fun result s' => Ends (second result) s' later stopped) stopped := by
  rcases run : first s with ⟨thrown | result, middle⟩
  · rw [Ends, bind_of_error run, Ends, run]
  · rw [Ends, bind_of_ok run, Ends.eq_def first, run]
    rfl

theorem Ends.bind (early : Ends first s (fun result s' => Ends (second result) s' later stopped) stopped) :
    Ends (first >>= second) s later stopped := Ends.bind_iff.mpr early

theorem Ends.imp {weaker : Result → State → Prop} {other : Thrown → State → Prop}
    (ends : Ends action s wanted stopped) (implies : ∀ result s', wanted result s' → weaker result s')
    (stops : ∀ thrown s', stopped thrown s' → other thrown s') : Ends action s weaker other := by
  rcases run : action s with ⟨thrown | result, s'⟩
  · rw [Ends, run]
    exact stops thrown s' (ends.error run)
  · rw [Ends, run]
    exact implies result s' (ends.ok run)

end Ends

end Effect
