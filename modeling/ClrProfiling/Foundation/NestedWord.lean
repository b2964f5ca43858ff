import Mathlib

/-! Trees of invocations, the events along them, and the words that open and close each one
around what it invokes. -/

namespace NestedWord

variable {Method Ending Event : Type}

/-- A completed invocation: of what, how it ended, and its events and inner invocations in their order. -/
inductive Invocation (Method Ending Event : Type) where
  | invoked (method : Method) (ending : Ending) (trace : List (Event ⊕ Invocation Method Ending Event))

namespace Invocation

/-- What holds of an invocation where it holds of all that it makes holds of every invocation. -/
theorem induct {holds : Invocation Method Ending Event → Prop}
    (step : ∀ method ending trace, (∀ inner, .inr inner ∈ trace → holds inner) → holds (.invoked method ending trace)) :
    ∀ invocation, holds invocation
  | .invoked method ending trace => step method ending trace fun inner _ => induct step inner
decreasing_by
  rename_i member
  have smaller := List.sizeOf_lt_of_mem member
  simp only [Sum.inr.sizeOf_spec, invoked.sizeOf_spec] at smaller ⊢
  omega

/-- Something holds of an invocation and of all that it leads to. -/
inductive Everywhere (holds : Method → Ending → List (Event ⊕ Invocation Method Ending Event) → Prop) :
    Invocation Method Ending Event → Prop
  | invoked (here : holds method ending trace)
    (inner : ∀ invocation, .inr invocation ∈ trace → Everywhere holds invocation) :
    Everywhere holds (.invoked method ending trace)

theorem Everywhere.mono {holds holds' : Method → Ending → List (Event ⊕ Invocation Method Ending Event) → Prop}
    (weaker : ∀ method ending trace, holds method ending trace → holds' method ending trace)
    {invocation : Invocation Method Ending Event} (everywhere : invocation.Everywhere holds) :
    invocation.Everywhere holds' := by
  induction everywhere with
  | invoked here _ ih => exact .invoked (weaker _ _ _ here) ih

section Words

mutual

/-- The events of an invocation in their order, with those of all that it leads to. -/
def events : Invocation Method Ending Event → List Event
  | .invoked _ _ trace => traceEvents trace

def traceEvents : List (Event ⊕ Invocation Method Ending Event) → List Event
  | [] => []
  | .inl event :: rest => event :: traceEvents rest
  | .inr inner :: rest => events inner ++ traceEvents rest

end

variable (opens : Method → Event) (closes : Method → Ending → List Event)

mutual

/-- The word of a tree: each invocation opens in front of all that it leads to, and closes behind it. -/
def word : Invocation Method Ending Event → List Event
  | .invoked method ending trace => opens method :: (traceWord trace ++ closes method ending)

def traceWord : List (Event ⊕ Invocation Method Ending Event) → List Event
  | [] => []
  | .inl _ :: rest => traceWord rest
  | .inr inner :: rest => word inner ++ traceWord rest

end

/-- An invocation has one event in front of all that it invokes, and closes behind it. -/
def Bracketed (method : Method) (ending : Ending) (trace : List (Event ⊕ Invocation Method Ending Event)) : Prop :=
  ∃ inner : List (Invocation Method Ending Event),
    trace = .inl (opens method) :: (inner.map .inr ++ (closes method ending).map .inl)

end Words

section Laws

variable {opens : Method → Event} {closes closes' : Method → Ending → List Event}

theorem traceEvents_append (first second : List (Event ⊕ Invocation Method Ending Event)) :
    traceEvents (first ++ second) = traceEvents first ++ traceEvents second := by
  induction first with
  | nil => rfl
  | cons item rest ih => cases item <;> simp [traceEvents, ih]

theorem traceEvents_inl (own : List Event) :
    traceEvents (own.map .inl : List (Event ⊕ Invocation Method Ending Event)) = own := by
  induction own with
  | nil => rfl
  | cons event rest ih => rw [List.map_cons, traceEvents, ih]

theorem traceEvents_inr (inner : List (Invocation Method Ending Event)) :
    traceEvents (inner.map .inr) = inner.flatMap events := by
  induction inner with
  | nil => rfl
  | cons invocation rest ih => rw [List.map_cons, traceEvents, ih, List.flatMap_cons]

theorem traceWord_append (first second : List (Event ⊕ Invocation Method Ending Event)) :
    traceWord opens closes (first ++ second) = traceWord opens closes first ++ traceWord opens closes second := by
  induction first with
  | nil => rfl
  | cons item rest ih => cases item <;> simp [traceWord, ih]

theorem traceWord_inl (own : List Event) :
    traceWord opens closes (own.map .inl : List (Event ⊕ Invocation Method Ending Event)) = [] := by
  induction own with
  | nil => rfl
  | cons event rest ih => rw [List.map_cons, traceWord, ih]

theorem traceWord_inr (inner : List (Invocation Method Ending Event)) :
    traceWord opens closes (inner.map .inr) = inner.flatMap (word opens closes) := by
  induction inner with
  | nil => rfl
  | cons invocation rest ih => rw [List.map_cons, traceWord, ih, List.flatMap_cons]

/-- Where every invocation is bracketed, the events are the word of the tree. -/
theorem events_eq_word {invocation : Invocation Method Ending Event}
    (bracketed : invocation.Everywhere (Bracketed opens closes)) :
    invocation.events = invocation.word opens closes := by
  induction bracketed with
  | @invoked method ending trace here _ ih =>
    obtain ⟨inner, rfl⟩ := here
    have same : inner.flatMap events = inner.flatMap (word opens closes) := by
      refine List.flatMap_congr fun invocation member => ih invocation ?_
      exact List.mem_cons_of_mem _ (List.mem_append_left _ (List.mem_map_of_mem member))
    rw [events, word, traceEvents, traceWord, traceEvents_append, traceEvents_inr, traceEvents_inl, traceWord_append,
      traceWord_inr, traceWord_inl, List.append_nil, same]

private theorem traceWord_eq (trace : List (Event ⊕ Invocation Method Ending Event)) :
    traceWord opens closes trace = (trace.filterMap Sum.getRight?).flatMap (word opens closes) := by
  induction trace with
  | nil => rfl
  | cons item rest ih => cases item <;> simp [traceWord, ih, List.filterMap_cons]

theorem word_congr {invocation : Invocation Method Ending Event}
    (same : invocation.Everywhere fun method ending _ => closes method ending = closes' method ending) :
    invocation.word opens closes = invocation.word opens closes' := by
  induction same with
  | invoked here _ ih =>
    rw [word, word, here, traceWord_eq, traceWord_eq]
    refine congrArg (fun inner => _ :: (inner ++ _)) (List.flatMap_congr fun invocation member => ih invocation ?_)
    obtain ⟨item, listed, right⟩ := List.mem_filterMap.mp member
    rwa [← Sum.getRight?_eq_some_iff.mp right]

private theorem length_word (method : Method) (ending : Ending)
    (trace : List (Event ⊕ Invocation Method Ending Event)) :
    (word opens closes (.invoked method ending trace)).length =
      ((trace.filterMap Sum.getRight?).map fun inner => (inner.word opens closes).length).sum +
        (closes method ending).length + 1 := by
  rw [word, List.length_cons, List.length_append, traceWord_eq, List.length_flatMap]

theorem length_word_le (fewer : ∀ method ending, (closes method ending).length ≤ (closes' method ending).length)
    (invocation : Invocation Method Ending Event) :
    (invocation.word opens closes).length ≤ (invocation.word opens closes').length := by
  induction invocation using induct with
  | step method ending trace ih =>
    rw [length_word, length_word]
    refine Nat.succ_le_succ (Nat.add_le_add (List.sum_le_sum fun inner member => ih inner ?_) (fewer method ending))
    obtain ⟨item, listed, right⟩ := List.mem_filterMap.mp member
    rwa [← Sum.getRight?_eq_some_iff.mp right]

/-- Words that close with less are as long only where nothing is left out. -/
theorem everywhere_of_length (fewer : ∀ method ending, (closes method ending).length ≤ (closes' method ending).length)
    (invocation : Invocation Method Ending Event)
    (same : (invocation.word opens closes).length = (invocation.word opens closes').length) :
    invocation.Everywhere fun method ending _ => (closes method ending).length = (closes' method ending).length := by
  induction invocation using induct with
  | step method ending trace ih =>
    rw [length_word, length_word] at same
    have here := fewer method ending
    have below : ((trace.filterMap Sum.getRight?).map fun inner => (inner.word opens closes).length).sum ≤
        ((trace.filterMap Sum.getRight?).map fun inner => (inner.word opens closes').length).sum :=
      List.sum_le_sum fun inner _ => length_word_le fewer inner
    refine .invoked (by omega) fun inner member => ih inner member ?_
    by_contra apart
    have listed : inner ∈ trace.filterMap Sum.getRight? := List.mem_filterMap.mpr ⟨.inr inner, member, rfl⟩
    have less := List.sum_lt_sum _ _ (fun other _ => length_word_le fewer other)
      ⟨inner, listed, lt_of_le_of_ne (length_word_le fewer inner) apart⟩
    omega

theorem word_eq_iff (part : ∀ method ending, closes method ending <+: closes' method ending)
    (invocation : Invocation Method Ending Event) : invocation.word opens closes = invocation.word opens closes' ↔
      invocation.Everywhere fun method ending _ => closes method ending = closes' method ending := by
  refine ⟨fun same => ?_, word_congr⟩
  refine (everywhere_of_length (fun method ending => (part method ending).length_le) invocation
    (congrArg List.length same)).mono fun method ending _ length => ?_
  exact (part method ending).eq_of_length length

end Laws

end Invocation

end NestedWord
