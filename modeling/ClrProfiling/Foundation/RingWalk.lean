import ClrProfiling.Foundation.LinkedRing

/-! Loops over a ring, `for (cursor = first; cursor ≠ hub; cursor = next cursor)`,
and the rule that turns a loop whose body leaves the links alone into a fold. -/

namespace LinkedRing

universe u v

variable {Node : Type u} {State Error : Type v} [DecidableEq Node]

/-- The loop; its body may move the cursor, and the increment follows the links of
the state the body left behind. -/
def walk (next : State → Node → Node) (hub : Node) (stuck : Error)
    (body : State → Node → Except Error (State × Node)) : Nat → State → Node → Except Error State
  | 0, state, cursor => if cursor = hub then .ok state else .error stuck
  | fuel + 1, state, cursor =>
    if cursor = hub then .ok state
    else
      match body state cursor with
      | .error error => .error error
      | .ok (state, cursor) => walk next hub stuck body fuel state (next state cursor)

theorem walk_hub (next : State → Node → Node) (hub : Node) (stuck : Error)
    (body : State → Node → Except Error (State × Node)) (fuel : Nat) (state : State) :
    walk next hub stuck body fuel state hub = .ok state := by
  cases fuel <;> simp [walk]

/-- The loop with a body that leaves the cursor where it is. -/
def forEach (next : State → Node → Node) (hub : Node) (stuck : Error)
    (step : State → Node → Except Error State) : Nat → State → Node → Except Error State :=
  walk next hub stuck fun state node => (step state node).map (·, node)

/-- A body that keeps the links visits the chain from the cursor to the hub once, in order. -/
theorem forEach_eq_foldlM {next : State → Node → Node} {step : State → Node → Except Error State}
    (keeps : ∀ state node state', step state node = .ok state' → next state' = next state)
    {items : List Node} {hub : Node} {state : State} {fuel : Nat} {stuck : Error}
    (chain : (items ++ [hub]).IsChain (fun left right => next state left = right))
    (fresh : hub ∉ items) (enough : items.length ≤ fuel) :
    forEach next hub stuck step fuel state (rightOf hub items) = items.foldlM step state := by
  induction items generalizing state fuel with
  | nil => exact walk_hub ..
  | cons node rest ih =>
    obtain ⟨apart, fresh⟩ : node ≠ hub ∧ hub ∉ rest := by
      simpa [eq_comm (a := hub), not_or] using fresh
    cases fuel with
    | zero => simp at enough
    | succ fuel =>
      have onward : next state node = rightOf hub rest := by
        obtain ⟨back, split⟩ : ∃ back, rest ++ [hub] = rightOf hub rest :: back := by
          cases rest <;> simp
        rw [List.cons_append, split] at chain
        exact (List.isChain_cons_cons.mp chain).1
      rw [rightOf_cons, List.foldlM_cons, forEach, walk, if_neg apart]
      cases run : step state node with
      | error error => rfl
      | ok state' =>
        have kept := keeps state node state' run
        have tail : (rest ++ [hub]).IsChain (fun left right => next state' left = right) := by
          rw [kept]
          exact chain.tail
        change walk next hub stuck _ fuel state' (next state' node) = rest.foldlM step state'
        rw [kept, onward]
        exact ih tail fresh (by simpa using enough)

omit [DecidableEq Node] in
theorem Links.IsRing.chain {links : Links Node} (ring : links.IsRing hub items) :
    (items ++ [hub]).IsChain (fun left right => links.next left = right) :=
  ring.joined.tail.imp fun _ _ joint => joint.1

/-- A loop over a ring whose body keeps the links is a fold over the ring's content. -/
theorem Links.IsRing.forEach_eq_foldlM {state : State} (links : State → Links Node)
    (ring : (links state).IsRing hub items)
    {step : State → Node → Except Error State}
    (keeps : ∀ state node state', step state node = .ok state' → links state' = links state)
    (enough : items.length ≤ fuel) {stuck : Error} :
    forEach (fun state => (links state).next) hub stuck step fuel state ((links state).next hub) =
      items.foldlM step state := by
  rw [ring.next_hub]
  exact LinkedRing.forEach_eq_foldlM
    (fun state node state' run => congrArg Links.next (keeps state node state' run))
    ring.chain ring.hub_notMem enough

section Notes

variable {Note : Type v} {next : State → Node → Node} {hub : Node} {stuck : Error}

/-- What a loop leaves in a log, up to its end or to the turn that fails. -/
def walkNotes (next : State → Node → Node) (hub : Node) (body : State → Node → Except Error (State × Node))
    (notes : State → Node → List Note) : Nat → State → Node → List Note
  | 0, _, _ => []
  | fuel + 1, state, cursor =>
    if cursor = hub then []
    else
      notes state cursor ++
        match body state cursor with
        | .error _ => []
        | .ok (state, cursor) => walkNotes next hub body notes fuel state (next state cursor)

/-- An invariant of the turns holds behind the loop. -/
theorem walk_invariant (invariant : State → Prop) {body : State → Node → Except Error (State × Node)}
    (keeps : ∀ state cursor result, cursor ≠ hub → invariant state → body state cursor = .ok result →
      invariant result.1)
    (start : invariant state) (run : walk next hub stuck body fuel state cursor = .ok state') : invariant state' := by
  induction fuel generalizing state cursor with
  | zero =>
    rw [walk] at run
    split at run
    · cases run
      exact start
    · cases run
  | succ fuel ih =>
    rw [walk] at run
    split at run
    · cases run
      exact start
    · rename_i apart
      cases turn : body state cursor with
      | error error => simp [turn] at run
      | ok result =>
        rw [turn] at run
        exact ih (keeps state cursor result apart start turn) run

/-- Every note is taken in a state the invariant holds in. -/
theorem walkNotes_forall (invariant : State → Prop) {wanted : Note → Prop}
    {body : State → Node → Except Error (State × Node)} {notes : State → Node → List Note}
    (keeps : ∀ state cursor result, cursor ≠ hub → invariant state → body state cursor = .ok result →
      invariant result.1)
    (noted : ∀ state cursor, cursor ≠ hub → invariant state → ∀ note ∈ notes state cursor, wanted note)
    (start : invariant state) : ∀ note ∈ walkNotes next hub body notes fuel state cursor, wanted note := by
  induction fuel generalizing state cursor with
  | zero => simp [walkNotes]
  | succ fuel ih =>
    intro note member
    rw [walkNotes] at member
    split at member
    · simp at member
    · rename_i apart
      rcases List.mem_append.mp member with here | later
      · exact noted state cursor apart start note here
      · cases turn : body state cursor with
        | error error => simp [turn] at later
        | ok result =>
          rw [turn] at later
          exact ih (keeps state cursor result apart start turn) note later

end Notes

end LinkedRing
