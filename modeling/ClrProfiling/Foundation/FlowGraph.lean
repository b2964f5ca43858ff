import Mathlib

/-! Paths of a control-flow graph: erasing nodes from the paths of one graph to get the
paths of another, and corridors that are entered at one end alone. -/

namespace FlowGraph

universe u v

variable {Node : Type u} {Source : Type v}

structure Graph (Node : Type u) where
  start : Node → Prop
  step : Node → Node → Prop

namespace Graph

/-- A sequence of nodes from a start on, each one a step from the one before it. -/
def IsPath (graph : Graph Node) (path : List Node) : Prop :=
  (∀ node ∈ path.head?, graph.start node) ∧ path.IsChain graph.step

theorem IsPath.take {graph : Graph Node} (first : graph.IsPath (before ++ after)) : graph.IsPath before := by
  refine ⟨fun node head => first.1 node ?_, (List.isChain_append.mp first.2).1⟩
  cases before with
  | nil => simp at head
  | cons other rest => simpa using head

/-- Every way into `node` comes from `previous`. -/
def EnteredFrom (graph : Graph Node) (previous node : Node) : Prop :=
  ¬graph.start node ∧ ∀ other, graph.step other node → other = previous

/-- Every way out of `node` leads to `next`. -/
def LeavesTo (graph : Graph Node) (node next : Node) : Prop := ∀ other, graph.step node other → other = next

theorem EnteredFrom.last {graph : Graph Node} (entered : graph.EnteredFrom previous node)
    (path : graph.IsPath (before ++ [node])) : ∃ earlier, before = earlier ++ [previous] := by
  cases before using List.reverseRecOn with
  | nil => exact absurd (path.1 node rfl) entered.1
  | append_singleton earlier other =>
    have step : graph.step other node := by
      have chain := path.2
      rw [List.append_assoc] at chain
      exact (List.isChain_append_cons_cons.mp chain).2.1
    rw [entered.2 other step]
    exact ⟨earlier, rfl⟩

/-- A path to the end of a corridor has come all the way through it. -/
theorem IsPath.through {graph : Graph Node} (corridor : List Node) {entry : Node}
    (chain : (entry :: corridor).IsChain graph.EnteredFrom) (path : graph.IsPath (before ++ [node]))
    (ends : (entry :: corridor).getLast (List.cons_ne_nil _ _) = node) :
    (entry :: corridor) <:+ before ++ [node] := by
  induction corridor using List.reverseRecOn generalizing before node with
  | nil =>
    obtain rfl : entry = node := ends
    exact ⟨before, rfl⟩
  | append_singleton rest last ih =>
    obtain rfl : last = node := by simpa using ends
    rw [← List.cons_append] at chain
    have entered : graph.EnteredFrom ((entry :: rest).getLast (List.cons_ne_nil _ _)) last :=
      (List.isChain_append.mp chain).2.2 _ (List.getLast_mem_getLast? _) last rfl
    obtain ⟨earlier, rfl⟩ := entered.last path
    obtain ⟨front, whole⟩ := ih (List.isChain_append.mp chain).1 path.take rfl
    refine ⟨front, ?_⟩
    rw [← whole]
    simp

/-- Where each node leaves to the next alone, a path stays inside or goes all the way. -/
theorem prefix_of_leavesTo {graph : Graph Node} (corridor : List Node) {entry : Node}
    (chain : (entry :: corridor).IsChain graph.LeavesTo) (path : (entry :: rest).IsChain graph.step) :
    entry :: rest <+: entry :: corridor ∨ entry :: corridor <+: entry :: rest := by
  induction corridor generalizing entry rest with
  | nil => exact .inr (by simp)
  | cons next corridor ih =>
    cases rest with
    | nil => exact .inl (by simp)
    | cons other rest =>
      obtain ⟨leaves, chain⟩ := List.isChain_cons_cons.mp chain
      obtain ⟨step, path⟩ := List.isChain_cons_cons.mp path
      obtain rfl := leaves other step
      simpa using ih chain path

/-- What nothing steps to stands at the start of a path or nowhere. -/
theorem IsPath.unentered {graph : Graph Node} (closed : ∀ other, ¬graph.step other node)
    (path : graph.IsPath (before ++ node :: after)) : before = [] := by
  cases before using List.reverseRecOn with
  | nil => rfl
  | append_singleton earlier other =>
    have chain := path.2
    rw [List.append_assoc] at chain
    exact absurd (List.isChain_append_cons_cons.mp chain).2.1 (closed other)

/-- A corridor that starts every path and has no other way in: a path ends in it, or
goes through it once. -/
theorem IsPath.opens {graph : Graph Node} (corridor : List Node) {entry : Node}
    (first : ∀ node, graph.start node → node = entry) (closed : ∀ other, ¬graph.step other entry)
    (into : (entry :: corridor).IsChain graph.EnteredFrom) (out : (entry :: corridor).IsChain graph.LeavesTo)
    (path : graph.IsPath steps) :
    steps <+: entry :: corridor ∨
      ∃ rest, steps = (entry :: corridor) ++ rest ∧ ∀ node ∈ rest, node ∉ entry :: corridor := by
  cases steps with
  | nil => exact .inl (by simp)
  | cons node others =>
    obtain rfl : node = entry := first node (path.1 node rfl)
    rcases prefix_of_leavesTo corridor out path.2 with inside | ⟨rest, whole⟩
    · exact .inl inside
    · refine .inr ⟨rest, whole.symm, fun again member inCorridor => ?_⟩
      obtain ⟨earlier, later, rfl⟩ := List.append_of_mem member
      have here : graph.IsPath ((node :: (corridor ++ earlier)) ++ [again]) := by
        have longer : graph.IsPath ((node :: (corridor ++ earlier)) ++ [again] ++ later) := by
          rw [← whole] at path
          simpa using path
        exact longer.take
      obtain ⟨front, back, split⟩ := List.append_of_mem inCorridor
      cases front with
      | nil =>
        obtain ⟨rfl, -⟩ := List.cons_eq_cons.mp split
        exact absurd (here.unentered closed) (by simp)
      | cons head front =>
        obtain ⟨rfl, same⟩ : node = head ∧ corridor = front ++ again :: back := List.cons_eq_cons.mp split
        rw [same, List.append_cons, ← List.cons_append] at into
        -- The way to a second visit starts at the entry, so it is no longer than the corridor.
        obtain ⟨detour, way⟩ := here.through (front ++ [again]) (List.isChain_append.mp into).1 (by simp)
        have direct : detour = [] := by
          rw [← way] at here
          exact here.unentered closed
        have lengths := congrArg List.length way
        simp only [direct, same, List.length_append, List.length_cons, List.length_nil] at lengths
        omega

end Graph

section Erasure

/-- A target graph that shows a source graph: some target nodes show a source node, the
others lead on to the node shown next. -/
structure Erasure (source : Graph Source) (target : Graph Node) where
  shown : Node → Option Source
  ahead : Node → Option Source
  /-- The number of nodes in front of the next one that shows something. -/
  delay : Node → Nat
  shown_ahead : shown node = some x → ahead node = some x
  start : target.start node → ahead node = some x → source.start x
  hidden : shown node = none → target.step node other → ahead other = ahead node
  step : shown node = some x → target.step node other → ∃ y, ahead other = some y ∧ source.step x y
  begins : source.start x → ∃ node, target.start node ∧ ahead node = some x
  goes : shown node = none → ahead node = some x → ∃ other, target.step node other ∧ delay other < delay node
  lifts : shown node = some x → source.step x y → ∃ other, target.step node other ∧ ahead other = some y

variable {source : Graph Source} {target : Graph Node}

namespace Erasure

private theorem chain_shown (erasure : Erasure source target) (path : (node :: rest).IsChain target.step) :
    (∀ x ∈ ((node :: rest).filterMap erasure.shown).head?, erasure.ahead node = some x) ∧
      ((node :: rest).filterMap erasure.shown).IsChain source.step := by
  induction rest generalizing node with
  | nil =>
    cases shown : erasure.shown node with
    | none => simp [shown]
    | some x => simpa [shown] using erasure.shown_ahead shown
  | cons other rest ih =>
    obtain ⟨step, path⟩ := List.isChain_cons_cons.mp path
    obtain ⟨first, chain⟩ := ih path
    cases shown : erasure.shown node with
    | none =>
      rw [List.filterMap_cons_none shown, ← erasure.hidden shown step]
      exact ⟨first, chain⟩
    | some x =>
      rw [List.filterMap_cons_some shown]
      obtain ⟨y, next, onward⟩ := erasure.step shown step
      refine ⟨by simpa using erasure.shown_ahead shown, List.isChain_cons.mpr ⟨fun z member => ?_, chain⟩⟩
      have same := (first z member).symm.trans next
      obtain rfl := Option.some.inj same
      exact onward

/-- What a path shows is a path of the source. -/
theorem shows_path (erasure : Erasure source target) (path : target.IsPath steps) :
    source.IsPath (steps.filterMap erasure.shown) := by
  cases steps with
  | nil => exact ⟨by simp, by simp⟩
  | cons node rest =>
    obtain ⟨first, chain⟩ := erasure.chain_shown path.2
    exact ⟨fun x member => erasure.start (path.1 node rfl) (first x member), chain⟩

private theorem leads (erasure : Erasure source target) (ahead : erasure.ahead node = some x) :
    ∃ way last, (node :: way).getLast (List.cons_ne_nil _ _) = last ∧ (node :: way).IsChain target.step ∧
      (node :: way).filterMap erasure.shown = [x] ∧ erasure.shown last = some x := by
  induction delay : erasure.delay node using Nat.strong_induction_on generalizing node with
  | _ delay ih =>
    cases shown : erasure.shown node with
    | some y =>
      have same : y = x := Option.some.inj ((erasure.shown_ahead shown).symm.trans ahead)
      exact ⟨[], node, rfl, by simp, by simp [shown, same], by rw [shown, same]⟩
    | none =>
      obtain ⟨other, step, shorter⟩ := erasure.goes shown ahead
      have onward : erasure.ahead other = some x := (erasure.hidden shown step).trans ahead
      obtain ⟨way, last, ends, chain, shows, lastShown⟩ := ih _ (delay ▸ shorter) onward rfl
      refine ⟨other :: way, last, by simpa using ends, List.isChain_cons_cons.mpr ⟨step, chain⟩, ?_, lastShown⟩
      rw [List.filterMap_cons_none shown, shows]

private theorem lift_chain (erasure : Erasure source target) (ahead : erasure.ahead node = some x)
    (path : (x :: rest).IsChain source.step) :
    ∃ steps, (node :: steps).IsChain target.step ∧ (node :: steps).filterMap erasure.shown = x :: rest := by
  induction rest generalizing node x with
  | nil =>
    obtain ⟨way, last, -, chain, shows, -⟩ := erasure.leads ahead
    exact ⟨way, chain, shows⟩
  | cons y rest ih =>
    obtain ⟨onward, path⟩ := List.isChain_cons_cons.mp path
    obtain ⟨way, last, ends, chain, shows, shown⟩ := erasure.leads ahead
    obtain ⟨other, step, next⟩ := erasure.lifts shown onward
    obtain ⟨steps, later, rest⟩ := ih next path
    refine ⟨way ++ other :: steps, ?_, ?_⟩
    · rw [← List.cons_append]
      refine List.isChain_append.mpr ⟨chain, later, fun a member b first => ?_⟩
      rw [List.getLast?_eq_some_getLast (List.cons_ne_nil _ _), ends] at member
      obtain rfl := Option.some.inj member
      obtain rfl := Option.some.inj first
      exact step
    · rw [← List.cons_append, List.filterMap_append, shows, rest]
      rfl

/-- Every path of the source is shown by a path. -/
theorem lifts_path (erasure : Erasure source target) (path : source.IsPath steps) :
    ∃ steps', target.IsPath steps' ∧ steps'.filterMap erasure.shown = steps := by
  cases steps with
  | nil => exact ⟨[], ⟨by simp, by simp⟩, rfl⟩
  | cons x rest =>
    obtain ⟨node, start, ahead⟩ := erasure.begins (path.1 x rfl)
    obtain ⟨steps, chain, shows⟩ := erasure.lift_chain ahead path.2
    exact ⟨node :: steps, ⟨by simpa using start, chain⟩, shows⟩

end Erasure

end Erasure

end FlowGraph
