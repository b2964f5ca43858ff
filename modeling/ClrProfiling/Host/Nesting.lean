import ClrProfiling.Foundation.Chase
import ClrProfiling.Host.ModuleInstrumenter

/-! The namespace test on the tables of any module, with cycles of nested classes or without. -/

namespace ClrProfiling

open Host ModuleInstrumenter Relation

/-- What is answered about the types of a module, whatever stands in its tables. -/
structure TypeTables where
  GetNestedClassProps : mdTypeDef → HRESULT × mdTypeDef
  GetTypeDefProps : mdTypeDef → HRESULT × TypeDefProps

namespace TypeTables

/-- One turn of the `while (true)` in `IsNestedTypeInNamespace`. -/
def Turn (tables : TypeTables) (namespaceFilter : WString) (typeDef : mdTypeDef) :
    Except Stop Bool ⊕ mdTypeDef :=
  let (hr, enclosingClassTypeDef) := tables.GetNestedClassProps typeDef
  if FAILED hr then .inl (.ok false)
  else
    let (hr, props) := tables.GetTypeDefProps enclosingClassTypeDef
    if FAILED hr then .inl (.error (.comError hr))
    else if wcsncmp props.name namespaceFilter namespaceFilter.length = 0 then .inl (.ok true)
    else if IsNestedType props.flags then .inr enclosingClassTypeDef
    else .inl (.ok false)

/-- What comes back, or is thrown, after at most `turns` turns. -/
def IsNestedTypeInNamespace (tables : TypeTables) (turns : Nat) (typeDef : mdTypeDef) (namespaceFilter : WString) :
    Option (Except Stop Bool) :=
  Chase.run (tables.Turn namespaceFilter) turns typeDef

def IsTypeInNamespace (tables : TypeTables) (turns : Nat) (typeName namespaceFilter : WString) (typeDef : mdTypeDef)
    (typeDefFlags : UInt32) : Option (Except Stop Bool) :=
  if wcsncmp typeName namespaceFilter namespaceFilter.length = 0 then some (.ok true)
  else if IsNestedType typeDefFlags then tables.IsNestedTypeInNamespace turns typeDef namespaceFilter
  else some (.ok false)

/-- A class is enclosed by another one that is nested itself, outside the namespace by its own name. -/
structure EnclosedOutside (tables : TypeTables) (namespaceFilter : WString) (typeDef enclosing : mdTypeDef) : Prop where
  found : ¬FAILED (tables.GetNestedClassProps typeDef).1
  encloses : (tables.GetNestedClassProps typeDef).2 = enclosing
  props : ¬FAILED (tables.GetTypeDefProps enclosing).1
  outside : wcsncmp (tables.GetTypeDefProps enclosing).2.name namespaceFilter namespaceFilter.length ≠ 0
  nested : IsNestedType (tables.GetTypeDefProps enclosing).2.flags = true

/-- The enclosing classes of a class lead to one that encloses itself, at once or around others. -/
def NestedInCycle (tables : TypeTables) (namespaceFilter : WString) (typeDef : mdTypeDef) : Prop :=
  ∃ enclosing, ReflTransGen (tables.EnclosedOutside namespaceFilter) typeDef enclosing ∧
    TransGen (tables.EnclosedOutside namespaceFilter) enclosing enclosing

variable {tables : TypeTables} {namespaceFilter typeName : WString} {typeDef enclosing : mdTypeDef} {turns : Nat}

theorem leads_iff : Chase.Leads (tables.Turn namespaceFilter) typeDef enclosing ↔
    tables.EnclosedOutside namespaceFilter typeDef enclosing := by
  unfold Chase.Leads Turn
  constructor
  · intro onward
    dsimp only at onward
    split at onward
    · cases onward
    · rename_i found
      split at onward
      · cases onward
      · rename_i props
        split at onward
        · cases onward
        · rename_i outside
          split at onward
          · rename_i nested
            cases onward
            exact ⟨found, rfl, props, outside, nested⟩
          · cases onward
  · intro ⟨found, same, props, outside, nested⟩
    subst same
    dsimp only
    rw [if_neg found, if_neg props, if_neg outside, if_pos nested]

theorem circles_iff : Chase.Circles (tables.Turn namespaceFilter) typeDef ↔
    tables.NestedInCycle namespaceFilter typeDef := by
  have same : Chase.Leads (tables.Turn namespaceFilter) = tables.EnclosedOutside namespaceFilter :=
    funext fun _ => funext fun _ => propext leads_iff
  rw [Chase.Circles, same, NestedInCycle]

/-- The loop comes to an end exactly where it is led into no cycle. -/
theorem nestedTest_returns_iff :
    (∃ turns outcome, tables.IsNestedTypeInNamespace turns typeDef namespaceFilter = some outcome) ↔
    ¬tables.NestedInCycle namespaceFilter typeDef :=
  Chase.returns_iff.trans (not_congr circles_iff)

/-- The namespace test comes to an end, with the result or an exception, exactly where the name or the
flags of the type decide it, or its enclosing classes do not lead into a cycle. -/
theorem namespaceTest_returns_iff (tables : TypeTables) (typeName namespaceFilter : WString) (typeDef : mdTypeDef)
    (typeDefFlags : UInt32) :
    ((∃ turns outcome, tables.IsNestedTypeInNamespace turns typeDef namespaceFilter = some outcome) ↔
      ¬tables.NestedInCycle namespaceFilter typeDef) ∧
    ((∃ turns outcome, tables.IsTypeInNamespace turns typeName namespaceFilter typeDef typeDefFlags = some outcome) ↔
      wcsncmp typeName namespaceFilter namespaceFilter.length = 0 ∨ IsNestedType typeDefFlags = false ∨
        ¬tables.NestedInCycle namespaceFilter typeDef) := by
  refine ⟨nestedTest_returns_iff, ?_⟩
  by_cases named : wcsncmp typeName namespaceFilter namespaceFilter.length = 0
  · exact iff_of_true ⟨0, _, if_pos named⟩ (.inl named)
  · rw [or_iff_right named]
    simp only [IsTypeInNamespace, if_neg named]
    cases nested : IsNestedType typeDefFlags with
    | false => exact iff_of_true ⟨0, .ok false, rfl⟩ (.inl rfl)
    | true =>
      rw [or_iff_right (by decide)]
      exact nestedTest_returns_iff

/-- A class that encloses itself keeps the loop going. -/
theorem namespaceTest_circles : ¬ ∀ (tables : TypeTables) (typeName namespaceFilter : WString) (typeDef : mdTypeDef)
    (typeDefFlags : UInt32), ∃ turns outcome,
      tables.IsTypeInNamespace turns typeName namespaceFilter typeDef typeDefFlags = some outcome := by
  intro returns
  let tables : TypeTables := ⟨fun typeDef => (S_OK, typeDef), fun _ => (S_OK, ⟨wide "B", tdNestedPublic⟩)⟩
  obtain ⟨turns, outcome, ends⟩ := returns tables (wide "B") (wide "A") 0x02000002 tdNestedPublic
  have outside : wcsncmp (wide "B") (wide "A") (wide "A").length ≠ 0 := by decide
  have enclosed : tables.EnclosedOutside (wide "A") 0x02000002 0x02000002 :=
    ⟨show ¬FAILED S_OK by decide, rfl, show ¬FAILED S_OK by decide, outside, by decide⟩
  rw [IsTypeInNamespace, if_neg outside, if_pos (by decide)] at ends
  exact nestedTest_returns_iff.mp ⟨turns, outcome, ends⟩ ⟨0x02000002, .refl, .single enclosed⟩

end TypeTables

section Runtime

variable {clr : Clr} {tables : TypeTables} {namespaceFilter : WString}

/-- A runtime that answers from the tables, at any time. -/
structure Clr.AnswersFrom (clr : Clr) (tables : TypeTables) : Prop where
  nestedClass : ∀ typeDef s, (clr.answer (.GetNestedClassProps typeDef) s).1 = tables.GetNestedClassProps typeDef
  typeDef : ∀ typeDef s, (clr.answer (.GetTypeDefProps typeDef) s).1 = tables.GetTypeDefProps typeDef

private theorem call_yields {Answer Result : Type} {request : Call Answer} {answer : Answer} {s : HostState clr}
    {rest : Answer → Host clr Result} {outcome : Except Stop Result}
    (answered : (clr.answer request s.runtime).1 = answer)
    (later : ∀ s, ∃ s', rest answer s = (outcome, s')) : ∃ s', (call request >>= rest) s = (outcome, s') := by
  obtain ⟨s', run⟩ := later { s with runtime := (clr.answer request s.runtime).2 }
  refine ⟨s', ?_⟩
  rw [← answered] at run
  exact (Effect.bind_of_ok rfl).trans run

/-- The walk of an instrumenter is the loop on the tables its runtime answers from. -/
theorem nestedWalk_eq (answers : clr.AnswersFrom tables) (turns : Nat) (typeDef : mdTypeDef) (s : HostState clr) :
    ∃ s', NestedWalk namespaceFilter turns typeDef s =
      ((tables.IsNestedTypeInNamespace turns typeDef namespaceFilter).getD (.error .unfinished), s') := by
  induction turns generalizing typeDef s with
  | zero => exact ⟨s, rfl⟩
  | succ turns ih =>
    rw [TypeTables.IsNestedTypeInNamespace, Chase.run, TypeTables.Turn]
    unfold NestedWalk
    apply call_yields (answers.nestedClass typeDef s.runtime)
    intro s
    dsimp only
    by_cases missing : FAILED (tables.GetNestedClassProps typeDef).1
    · rw [if_pos missing, if_pos missing]
      exact ⟨s, rfl⟩
    · rw [if_neg missing, if_neg missing]
      apply call_yields (answers.typeDef _ s.runtime)
      intro s
      by_cases failed : FAILED (tables.GetTypeDefProps (tables.GetNestedClassProps typeDef).2).1
      · rw [if_pos failed]
        refine ⟨s, Effect.bind_of_error ?_⟩
        rw [ComOp, if_pos failed]
        rfl
      · have passed : ComOp (tables.GetTypeDefProps (tables.GetNestedClassProps typeDef).2).1 s =
            (.ok (tables.GetTypeDefProps (tables.GetNestedClassProps typeDef).2).1, s) := by
          rw [ComOp, if_neg failed]
          rfl
        rw [if_neg failed, Effect.bind_of_ok passed, if_neg failed]
        by_cases named : wcsncmp (tables.GetTypeDefProps (tables.GetNestedClassProps typeDef).2).2.name
            namespaceFilter namespaceFilter.length = 0
        · rw [if_pos named, if_pos named]
          exact ⟨s, rfl⟩
        · rw [if_neg named, if_neg named]
          by_cases nested : IsNestedType (tables.GetTypeDefProps (tables.GetNestedClassProps typeDef).2).2.flags = true
          · rw [if_pos nested, if_pos nested]
            exact ih _ s
          · rw [if_neg nested, if_neg nested]
            exact ⟨s, rfl⟩

/-- The namespace test of an instrumenter is the test on the tables, with as many turns. -/
theorem isTypeInNamespace_of_tables (answers : clr.AnswersFrom tables) (typeName : WString) (typeDef : mdTypeDef)
    (typeDefFlags : UInt32) (s : HostState clr) :
    ∃ s', IsTypeInNamespace typeName namespaceFilter typeDef typeDefFlags s =
      ((tables.IsTypeInNamespace s.turns typeName namespaceFilter typeDef typeDefFlags).getD (.error .unfinished),
        s') := by
  unfold TypeTables.IsTypeInNamespace IsTypeInNamespace
  by_cases named : wcsncmp typeName namespaceFilter namespaceFilter.length = 0
  · rw [if_pos named, if_pos named]
    exact ⟨s, rfl⟩
  · rw [if_neg named, if_neg named]
    by_cases nested : IsNestedType typeDefFlags = true
    · rw [if_pos nested, if_pos nested]
      exact nestedWalk_eq answers s.turns typeDef s
    · rw [if_neg nested, if_neg nested]
      exact ⟨s, rfl⟩

end Runtime

end ClrProfiling
