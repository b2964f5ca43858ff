import ClrProfiling.Foundation.FlowGraph

/-! Reachable nodes of a control-flow graph, and graphs whose nodes carry a weight that
every step changes. -/

namespace FlowGraph

universe u v w

variable {Node : Type u} {Source : Type v} {Weight : Type w}

/-- The nodes some path leads to. -/
inductive Graph.Reached (graph : Graph Node) : Node → Prop
  | start (starts : graph.start node) : graph.Reached node
  | step (reached : graph.Reached node) (step : graph.step node other) : graph.Reached other

/-- Every node carries a weight; `opens` gives it to the nodes control comes in at, and a
step out of a node weighs it anew. -/
def Graph.weighted (graph : Graph Node) (opens : Node → Weight → Prop) (weigh : Node → Weight → Weight) :
    Graph (Node × Weight) where
  start config := opens config.1 config.2
  step config other := graph.step config.1 other.1 ∧ other.2 = weigh config.1 config.2

section Weighted

variable {graph : Graph Node} {opens : Node → Weight → Prop} {weigh : Node → Weight → Weight}

theorem Graph.EnteredFrom.weighs (entered : graph.EnteredFrom previous node) (inner : ¬opens node weight)
    (reached : (graph.weighted opens weigh).Reached (node, weight)) :
    ∃ before, (graph.weighted opens weigh).Reached (previous, before) ∧ weight = weigh previous before := by
  cases reached with
  | start starts => exact absurd starts inner
  | @step config _ reached step =>
    obtain ⟨other, before⟩ := config
    obtain rfl := entered.2 other step.1
    exact ⟨before, reached, step.2⟩

theorem Graph.Reached.opened (closed : ∀ other, ¬graph.step other node)
    (reached : (graph.weighted opens weigh).Reached (node, weight)) : opens node weight := by
  cases reached with
  | start starts => exact starts
  | step reached step => exact absurd step.1 (closed _)

end Weighted

namespace Erasure

variable {source : Graph Source} {target : Graph Node}

/-- What is shown next at a reached node is reached in the source. -/
theorem reached_ahead (erasure : Erasure source target) (reached : target.Reached node)
    (ahead : erasure.ahead node = some x) : source.Reached x := by
  induction reached generalizing x with
  | start starts => exact .start (erasure.start starts ahead)
  | @step node other reached step ih =>
    cases shown : erasure.shown node with
    | none =>
      rw [erasure.hidden shown step] at ahead
      exact ih ahead
    | some y =>
      obtain ⟨z, next, onward⟩ := erasure.step shown step
      obtain rfl := Option.some.inj (next.symm.trans ahead)
      exact .step (ih (erasure.shown_ahead shown)) onward

private theorem reached_leads (erasure : Erasure source target) (reached : target.Reached node)
    (ahead : erasure.ahead node = some x) : ∃ last, target.Reached last ∧ erasure.shown last = some x := by
  induction delay : erasure.delay node using Nat.strong_induction_on generalizing node with
  | _ delay ih =>
    cases shown : erasure.shown node with
    | some y =>
      obtain rfl := Option.some.inj ((erasure.shown_ahead shown).symm.trans ahead)
      exact ⟨node, reached, shown⟩
    | none =>
      obtain ⟨other, step, shorter⟩ := erasure.goes shown ahead
      exact ih _ (delay ▸ shorter) (.step reached step) ((erasure.hidden shown step).trans ahead) rfl

theorem reached_shown (erasure : Erasure source target) (reached : source.Reached x) :
    ∃ node, target.Reached node ∧ erasure.shown node = some x := by
  induction reached with
  | start starts =>
    obtain ⟨node, first, ahead⟩ := erasure.begins starts
    exact erasure.reached_leads (.start first) ahead
  | step reached step ih =>
    obtain ⟨node, there, shown⟩ := ih
    obtain ⟨other, onward, ahead⟩ := erasure.lifts shown step
    exact erasure.reached_leads (.step there onward) ahead

variable {opensSource : Source → Weight → Prop} {opensTarget : Node → Weight → Prop}
  {weighSource : Source → Weight → Weight} {weighTarget : Node → Weight → Weight}

/-- An erasure of weighted graphs, from one of the graphs; `settle` gives the weight a node
has for what is shown next. -/
def weighted (erasure : Erasure source target) (settle : Node → Weight → Weight)
    (shows : ∀ node x weight, erasure.shown node = some x → settle node weight = weight)
    (starts : ∀ node x weight, opensTarget node weight → erasure.ahead node = some x →
    opensSource x (settle node weight))
    (begins : ∀ x weight, opensSource x weight →
      ∃ node before, opensTarget node before ∧ erasure.ahead node = some x ∧ settle node before = weight)
    (hidden : ∀ node other weight, erasure.shown node = none → target.step node other →
      settle other (weighTarget node weight) = settle node weight)
    (step : ∀ node x other weight, erasure.shown node = some x → target.step node other →
      settle other (weighTarget node weight) = weighSource x weight) :
    Erasure (source.weighted opensSource weighSource) (target.weighted opensTarget weighTarget) where
  shown config := (erasure.shown config.1).map (·, config.2)
  ahead config := (erasure.ahead config.1).map (·, settle config.1 config.2)
  delay config := erasure.delay config.1
  shown_ahead := by
    rintro ⟨node, weight⟩ x shown
    obtain ⟨y, here, rfl⟩ := Option.map_eq_some_iff.mp shown
    rw [erasure.shown_ahead here, shows node y weight here, Option.map_some]
  start := by
    rintro ⟨node, weight⟩ x opened ahead
    obtain ⟨y, next, rfl⟩ := Option.map_eq_some_iff.mp ahead
    exact starts node y weight opened next
  hidden := by
    rintro ⟨node, weight⟩ ⟨other, after⟩ shown ⟨onward, rfl⟩
    have unseen := Option.map_eq_none_iff.mp shown
    dsimp only
    rw [erasure.hidden unseen onward, hidden node other weight unseen onward]
  step := by
    rintro ⟨node, weight⟩ x ⟨other, after⟩ shown ⟨onward, rfl⟩
    obtain ⟨y, here, rfl⟩ := Option.map_eq_some_iff.mp shown
    obtain ⟨z, next, goes⟩ := erasure.step here onward
    refine ⟨(z, weighSource y weight), ?_, goes, rfl⟩
    dsimp only
    rw [next, step node y other weight here onward, Option.map_some]
  begins := by
    rintro ⟨x, weight⟩ opened
    obtain ⟨node, before, opens, ahead, rfl⟩ := begins x weight opened
    exact ⟨(node, before), opens, by rw [ahead, Option.map_some]⟩
  goes := by
    rintro ⟨node, weight⟩ x shown ahead
    obtain ⟨y, next, -⟩ := Option.map_eq_some_iff.mp ahead
    obtain ⟨other, onward, shorter⟩ := erasure.goes (Option.map_eq_none_iff.mp shown) next
    exact ⟨(other, weighTarget node weight), ⟨onward, rfl⟩, shorter⟩
  lifts := by
    rintro ⟨node, weight⟩ x ⟨y, after⟩ shown ⟨onward, rfl⟩
    obtain ⟨x, here, rfl⟩ := Option.map_eq_some_iff.mp shown
    obtain ⟨other, goes, ahead⟩ := erasure.lifts here onward
    refine ⟨(other, weighTarget node weight), ⟨goes, rfl⟩, ?_⟩
    rw [ahead, Option.map_some, step node x other weight here goes]

end Erasure

end FlowGraph
