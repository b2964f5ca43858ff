import ClrProfiling.Host.Metadata

/-! Which methods `InstrumentMethods` instruments: those of the types in the namespace that is
profiled, each once, whatever batches the runtime hands out. -/

namespace ClrProfiling

open Effect Host ModuleInstrumenter TargetModuleInstrumenter

/-- A filter selects the names it begins; one with a NUL in it selects the name in front of the NUL. -/
def Matches (name namespaceFilter : WString) : Prop := namespaceFilter <+: name ∨ name ++ [0] <+: namespaceFilter

/-- A type is in a namespace by its own name or by that of a type it is nested in. -/
inductive InNamespace (metadata : Metadata) (namespaceFilter : WString) : TypeDef → Prop
  | named (selected : Matches type.name namespaceFilter) : InNamespace metadata namespaceFilter type
  | nested (listed : outer ∈ metadata.types) (enclosing : type.enclosing = some outer.token)
      (inside : InNamespace metadata namespaceFilter outer) : InNamespace metadata namespaceFilter type

open Classical in
/-- The methods to instrument, with their types. -/
noncomputable def profiledMethods (metadata : Metadata) (namespaceFilter : WString) : List (TypeDef × mdMethodDef) :=
  (metadata.types.filter fun type => InNamespace metadata namespaceFilter type).flatMap fun type =>
    type.methods.map (type, ·)

/-- The calls for methods: each is registered and then hooked with the token it was given. -/
def methodCalls (moduleName : WString) (bridge : HookBridge) (description : mdMethodDef → WString) :
    (tokenCounter : UInt64) → List (TypeDef × mdMethodDef) → List HostCall
  | _, [] => []
  | tokenCounter, (type, methodDef) :: rest =>
    let metadata : MethodMetadata := ⟨tokenCounter + 1, moduleName, cString type.name, cString (description methodDef)⟩
    .RegisterMethod metadata ::
      .InjectEnterExitHooks methodDef bridge.methodEnterHookDef bridge.methodExitHookDef (some metadata.token) ::
      methodCalls moduleName bridge description (tokenCounter + 1) rest

section Names

theorem cString_clean {name : WString} (clean : 0 ∉ name) : cString name = name := by
  apply List.takeWhile_eq_self_iff.mpr
  intro unit member
  rw [decide_eq_true_eq]
  rintro rfl
  exact clean member

theorem matches_cons_iff {name rest : WString} {unit : UInt16} :
    Matches (unit :: name) (unit :: rest) ↔ Matches name rest := by
  simp [Matches, List.cons_prefix_cons]

private theorem wcsncmp_cons (first unit : UInt16) (others rest : WString) (count : Nat) :
    wcsncmp (first :: others) (unit :: rest) (count + 1) =
      if first = unit then if first = 0 then 0 else wcsncmp others rest count else first.toNat - unit.toNat := rfl

private theorem wcsncmp_nil (unit : UInt16) (rest : WString) (count : Nat) :
    wcsncmp [] (unit :: rest) (count + 1) = if 0 = unit then 0 else 0 - (unit.toNat : Int) := rfl

/-- The comparison of the namespace test. -/
theorem wcsncmp_eq_zero_iff {name namespaceFilter : WString} (clean : 0 ∉ name) :
    wcsncmp name namespaceFilter namespaceFilter.length = 0 ↔ Matches name namespaceFilter := by
  induction namespaceFilter generalizing name with
  | nil => simp [wcsncmp, Matches]
  | cons unit rest ih =>
    rw [List.length_cons]
    cases name with
    | nil =>
      rw [wcsncmp_nil]
      by_cases null : 0 = unit
      · simp [← null, Matches]
      · have value : unit.toNat ≠ 0 := fun zero => null (UInt16.toNat_inj.mp zero.symm)
        simp [Matches, List.cons_prefix_cons, null, value]
    | cons first others =>
      obtain ⟨some, clean⟩ := not_or.mp (mt List.mem_cons.mpr clean)
      rw [wcsncmp_cons]
      by_cases same : first = unit
      · rw [if_pos same, if_neg (Ne.symm some), ih clean, same, matches_cons_iff]
      · have value : (first.toNat : Int) - unit.toNat ≠ 0 := by
          intro zero
          exact same (UInt16.toNat_inj.mp (by omega))
        have other : ¬Matches (first :: others) (unit :: rest) := by
          simp [Matches, List.cons_prefix_cons, same, Ne.symm same]
        rw [if_neg same]
        exact iff_of_false value other

theorem isNestedType_of_enclosing {metadata : Metadata} (wellFormed : metadata.WellFormed)
    (member : type ∈ metadata.types)
    (enclosed : type.enclosing.isSome) : IsNestedType type.flags = true := by
  have nested := (wellFormed.visibility type member).mp enclosed
  by_contra other
  have mask : type.flags &&& tdNestedFamORAssem = 0 := by
    simp only [IsNestedType, Bool.or_eq_true, decide_eq_true_eq, not_or, not_not] at other
    exact other.1.1.2
  rw [show tdVisibilityMask = tdNestedFamORAssem from rfl, mask] at nested
  exact absurd nested (by decide)

theorem inNamespace_iff {metadata : Metadata} {namespaceFilter : WString} {type : TypeDef} :
    InNamespace metadata namespaceFilter type ↔ Matches type.name namespaceFilter ∨
      ∃ outer ∈ metadata.types, type.enclosing = some outer.token ∧ InNamespace metadata namespaceFilter outer := by
  constructor
  · intro inside
    cases inside with
    | named selected => exact .inl selected
    | nested listed enclosing inside => exact .inr ⟨_, listed, enclosing, inside⟩
  · rintro (selected | ⟨outer, listed, enclosing, inside⟩)
    · exact .named selected
    · exact .nested listed enclosing inside

end Names

section Queries

variable {clr : Clr} {view : clr.State → Metadata}

/-- A query leaves the tables and everything in the host as it was. -/
def Queried (view : clr.State → Metadata) (s s' : HostState clr) : Prop :=
  ∃ runtime, s' = { s with runtime } ∧ view runtime = view s.runtime

theorem Queried.refl (s : HostState clr) : Queried view s s := ⟨s.runtime, rfl, rfl⟩

theorem Queried.trans {s s' s'' : HostState clr} (first : Queried view s s') (second : Queried view s' s'') :
    Queried view s s'' := by
  obtain ⟨runtime, rfl, same⟩ := first
  obtain ⟨runtime', rfl, same'⟩ := second
  exact ⟨runtime', rfl, same'.trans same⟩

theorem Queried.view_eq {s s' : HostState clr} (queried : Queried view s s') : view s'.runtime = view s.runtime := by
  obtain ⟨runtime, rfl, same⟩ := queried
  exact same

theorem Queried.turns_eq {s s' : HostState clr} (queried : Queried view s s') : s'.turns = s.turns := by
  obtain ⟨runtime, rfl, -⟩ := queried
  rfl

/-- The walk up from one of some types has gone on for as long as it is followed. -/
structure Adrift (view : clr.State → Metadata) (turns : Nat) (types : List TypeDef) (s : HostState clr) (stop : Stop)
    (s' : HostState clr) : Prop where
  unfinished : stop = .unfinished
  queried : Queried view s s'
  deep : ∀ depth, (view s.runtime).Ranked depth → ∃ type ∈ types, turns ≤ depth type.token

theorem Adrift.behind {s s' s'' : HostState clr} (queried : Queried view s s')
    (adrift : Adrift view turns types s' stop s'')
    (subset : types ⊆ others) : Adrift view turns others s stop s'' where
  unfinished := adrift.unfinished
  queried := queried.trans adrift.queried
  deep depth ranked := by
    obtain ⟨type, member, far⟩ := adrift.deep depth (queried.view_eq ▸ ranked)
    exact ⟨type, subset member, far⟩

variable {s : HostState clr}

private theorem call_returns (serves : Serves clr view) {Answer : Type} (request : Call Answer)
    (query : request.adds = false) :
    Returns (call request) s fun answer s' => answer = (clr.answer request s.runtime).1 ∧ Queried view s s' :=
  ⟨_, _, rfl, rfl, _, rfl, serves.keeps request s.runtime query⟩

private theorem comOp_returns {hr : HRESULT} (success : ¬FAILED hr) {wanted : HRESULT → HostState clr → Prop}
    (holds : wanted hr s) : Returns (ComOp hr) s wanted := by
  rw [ComOp, if_neg success]
  exact Returns.pure holds

private theorem endEnum_returns {wanted : Unit → HostState clr → Prop} (holds : wanted () s) :
    Returns (EndEnum S_FALSE) s wanted := by
  refine Returns.bind (comOp_returns (by decide) ?_)
  rw [if_neg (by decide)]
  exact Returns.pure holds

/-- What `ReadTypes` keeps of a type. -/
def TypeDef.info (type : TypeDef) : TypeInfo := ⟨type.token, cString type.name, type.flags⟩

private theorem readTypes_returns (serves : Serves clr view) {types : List TypeDef}
    (listed : ∀ type ∈ types, type ∈ (view s.runtime).types) :
    Returns (ReadTypes (types.map TypeDef.token)) s fun infos s' => infos = types.map TypeDef.info ∧
      Queried view s s' := by
  induction types generalizing s with
  | nil => exact Returns.pure ⟨rfl, Queried.refl s⟩
  | cons type rest ih =>
    obtain ⟨first, others⟩ := List.forall_mem_cons.mp listed
    refine Returns.bind ((call_returns serves _ rfl).imp fun answer middle asked => ?_)
    obtain ⟨rfl, queried⟩ := asked
    rw [serves.typeProps s.runtime type first]
    refine Returns.bind (comOp_returns (by decide) (Returns.bind ?_))
    rw [← queried.view_eq] at others
    refine (ih others).imp fun infos s' read => Returns.pure ?_
    obtain ⟨rfl, later⟩ := read
    rw [if_pos rfl]
    exact ⟨rfl, queried.trans later⟩

private theorem readTypeBatches_returns (serves : Serves clr view)
    {batches : List (List mdTypeDef)} {types : List TypeDef} (listed : ∀ type ∈ types, type ∈ (view s.runtime).types)
    (whole : batches.flatten = types.map TypeDef.token) :
    Returns (ReadTypeBatches S_FALSE batches) s fun infos s' => infos = types.map TypeDef.info ∧ Queried view s s' := by
  induction batches generalizing s types with
  | nil =>
    rw [List.flatten_nil, eq_comm, List.map_eq_nil_iff] at whole
    rw [whole]
    exact Returns.bind (endEnum_returns (Returns.pure ⟨rfl, Queried.refl s⟩))
  | cons batch rest ih =>
    rw [List.flatten_cons, eq_comm, List.map_eq_append_iff] at whole
    obtain ⟨early, late, rfl, rfl, remaining⟩ := whole
    obtain ⟨first, others⟩ := List.forall_mem_append.mp listed
    refine Returns.bind ((readTypes_returns serves first).imp fun infos middle read => ?_)
    obtain ⟨rfl, queried⟩ := read
    rw [← queried.view_eq] at others
    refine Returns.bind ((ih others remaining.symm).imp fun infos s' read => Returns.pure ?_)
    obtain ⟨rfl, later⟩ := read
    rw [List.map_append]
    exact ⟨rfl, queried.trans later⟩

theorem getModuleTypes_returns (serves : Serves clr view) :
    Returns GetModuleTypes s fun infos s' => infos = (view s.runtime).types.map TypeDef.info ∧ Queried view s s' := by
  refine Returns.bind ((call_returns serves _ rfl).imp fun answer middle asked => ?_)
  obtain ⟨rfl, queried⟩ := asked
  have same := queried.view_eq
  rw [serves.typeDefsEnd s.runtime, ← same]
  refine (readTypeBatches_returns serves (fun _ member => member) ?_).imp fun infos s' read => ?_
  · rw [same]
    exact serves.typeDefs s.runtime
  · exact ⟨read.1, queried.trans read.2⟩

private theorem readMethodBatches_returns (batches : List (List mdMethodDef)) :
    Returns (ReadMethodBatches S_FALSE batches) s fun methodDefs s' => methodDefs = batches.flatten ∧ s' = s := by
  induction batches with
  | nil => exact Returns.bind (endEnum_returns (Returns.pure ⟨rfl, rfl⟩))
  | cons batch rest ih =>
    refine Returns.bind (ih.imp fun others s' read => Returns.pure ?_)
    obtain ⟨rfl, rfl⟩ := read
    exact ⟨rfl, rfl⟩

theorem getTypeMethods_returns (serves : Serves clr view) (member : type ∈ (view s.runtime).types) :
    Returns (GetTypeMethods type.token) s fun methodDefs s' => methodDefs = type.methods ∧ Queried view s s' := by
  refine Returns.bind ((call_returns serves _ rfl).imp fun answer middle asked => ?_)
  obtain ⟨rfl, queried⟩ := asked
  rw [serves.methodDefsEnd s.runtime type member]
  apply (readMethodBatches_returns _).imp
  intro methodDefs s' read
  obtain ⟨rfl, rfl⟩ := read
  exact ⟨serves.methodDefs s.runtime type member, queried⟩

/-- The walk up the enclosing classes finds the one that is in the namespace. -/
private theorem nestedWalk_ends (serves : Serves clr view) (wellFormed : (view s.runtime).WellFormed)
    (namespaceFilter : WString) {fuel : Nat} {type : TypeDef} (member : type ∈ (view s.runtime).types) :
    Ends (NestedWalk namespaceFilter fuel type.token) s (fun found s' => Queried view s s' ∧
      (found = true ↔ ∃ outer ∈ (view s.runtime).types, type.enclosing = some outer.token ∧
        InNamespace (view s.runtime) namespaceFilter outer)) (Adrift view fuel [type] s) := by
  induction fuel generalizing s type with
  | zero => exact ⟨rfl, Queried.refl s, fun depth _ => ⟨type, List.mem_singleton_self _, Nat.zero_le _⟩⟩
  | succ fuel ih =>
    refine Ends.bind ((call_returns serves _ rfl).imp fun answer middle asked => ?_).ends
    obtain ⟨rfl, queried⟩ := asked
    have same := queried.view_eq
    cases enclosing : type.enclosing with
    | none =>
      have fails := serves.topLevel s.runtime type member enclosing
      dsimp only
      rw [if_pos fails]
      exact Ends.pure ⟨queried, iff_of_false (by decide) (by simp)⟩
    | some token =>
      obtain ⟨found, answer⟩ := serves.nested s.runtime type member token enclosing
      obtain ⟨outer, listed, rfl⟩ := wellFormed.enclosing type member token enclosing
      have unique (other : TypeDef) (inTypes : other ∈ (view s.runtime).types)
          (named : some outer.token = some other.token) : other = outer :=
        List.inj_on_of_nodup_map wellFormed.tokens inTypes listed (Option.some.inj named).symm
      have outer_iff : (∃ other ∈ (view s.runtime).types, some outer.token = some other.token ∧
          InNamespace (view s.runtime) namespaceFilter other) ↔ InNamespace (view s.runtime) namespaceFilter outer := by
        constructor
        · rintro ⟨other, inTypes, named, inside⟩
          rwa [unique other inTypes named] at inside
        · exact fun inside => ⟨outer, listed, rfl, inside⟩
      dsimp only
      rw [if_neg found, answer, outer_iff, inNamespace_iff]
      refine Ends.bind ((call_returns serves _ rfl).imp fun props named asked => ?_).ends
      obtain ⟨rfl, queried'⟩ := asked
      have same' := (queried.trans queried').view_eq
      rw [serves.typeProps middle.runtime outer (same ▸ listed)]
      have success : ¬FAILED S_OK := by decide
      refine Ends.bind (comOp_returns success ?_).ends
      rw [if_neg success]
      by_cases selected : Matches outer.name namespaceFilter
      · rw [if_pos ((wcsncmp_eq_zero_iff (wellFormed.names outer listed)).mpr selected)]
        exact Ends.pure ⟨queried.trans queried', iff_of_true rfl (.inl selected)⟩
      · rw [if_neg (mt (wcsncmp_eq_zero_iff (wellFormed.names outer listed)).mp selected), or_iff_right selected]
        by_cases nested : IsNestedType outer.flags = true
        · rw [if_pos nested]
          have further := ih (same' ▸ wellFormed) (same' ▸ listed)
          rw [same'] at further
          refine further.imp (fun inside s' walked => ⟨(queried.trans queried').trans walked.1, walked.2⟩) ?_
          intro stop s' adrift
          refine ⟨adrift.unfinished, (queried.trans queried').trans adrift.queried, fun depth ranked => ?_⟩
          obtain ⟨_, inner, far⟩ := adrift.deep depth (same' ▸ ranked)
          rw [List.mem_singleton.mp inner] at far
          -- the outer class has the smaller depth
          have deeper := ranked type member outer.token enclosing
          exact ⟨type, List.mem_singleton_self _, by omega⟩
        · rw [if_neg nested]
          refine Ends.pure ⟨queried.trans queried', iff_of_false (by decide) ?_⟩
          rintro ⟨further, -, enclosed, -⟩
          exact nested (isNestedType_of_enclosing wellFormed listed (by rw [enclosed]; rfl))

/-- The namespace test. -/
theorem isTypeInNamespace_ends (serves : Serves clr view) (wellFormed : (view s.runtime).WellFormed)
    (namespaceFilter : WString) {type : TypeDef} (member : type ∈ (view s.runtime).types) :
    Ends (IsTypeInNamespace type.name namespaceFilter type.token type.flags) s (fun found s' => Queried view s s' ∧
      (found = true ↔ InNamespace (view s.runtime) namespaceFilter type)) (Adrift view s.turns [type] s) := by
  have clean := wellFormed.names type member
  rw [IsTypeInNamespace, inNamespace_iff]
  by_cases selected : Matches type.name namespaceFilter
  · rw [if_pos ((wcsncmp_eq_zero_iff clean).mpr selected)]
    exact Ends.pure ⟨Queried.refl s, iff_of_true rfl (.inl selected)⟩
  · rw [if_neg (mt (wcsncmp_eq_zero_iff clean).mp selected), or_iff_right selected]
    by_cases nested : IsNestedType type.flags = true
    · rw [if_pos nested]
      exact nestedWalk_ends serves wellFormed namespaceFilter member
    · rw [if_neg nested]
      refine Ends.pure ⟨Queried.refl s, iff_of_false (by decide) ?_⟩
      rintro ⟨outer, -, enclosed, -⟩
      exact nested (isNestedType_of_enclosing wellFormed member (by rw [enclosed]; rfl))

open Classical in
private theorem filterTypes_ends (serves : Serves clr view) (wellFormed : (view s.runtime).WellFormed)
    (namespaceFilter : WString) {types : List TypeDef} (listed : ∀ type ∈ types, type ∈ (view s.runtime).types) :
    Ends (FilterTypes namespaceFilter (types.map TypeDef.info)) s (fun infos s' => Queried view s s' ∧
      infos = (types.filter fun type => InNamespace (view s.runtime) namespaceFilter type).map TypeDef.info)
      (Adrift view s.turns types s) := by
  induction types generalizing s with
  | nil => exact Ends.pure ⟨Queried.refl s, rfl⟩
  | cons type rest ih =>
    obtain ⟨first, others⟩ := List.forall_mem_cons.mp listed
    have clean := cString_clean (wellFormed.names type first)
    have tests := isTypeInNamespace_ends serves wellFormed namespaceFilter first
    rw [← clean] at tests
    refine Ends.bind (tests.imp (fun found middle tested => ?_) fun stop s' adrift =>
      adrift.behind (Queried.refl s) (by simp))
    obtain ⟨queried, inside⟩ := tested
    have same := queried.view_eq
    rw [← same] at wellFormed others
    refine Ends.bind ((ih wellFormed others).imp (fun infos s' read => Ends.pure ?_) fun stop s' adrift => ?_)
    · obtain ⟨later, rfl⟩ := read
      refine ⟨queried.trans later, ?_⟩
      rw [same, List.filter_cons]
      cases found with
      | true => rw [if_pos rfl, if_pos (decide_eq_true (inside.mp rfl)), List.map_cons]
      | false =>
        have outside : ¬InNamespace (view s.runtime) namespaceFilter type := fun within =>
          absurd (inside.mpr within) (by decide)
        rw [if_neg (by decide), if_neg (by simpa using outside)]
    · rw [queried.turns_eq] at adrift
      exact adrift.behind queried (List.subset_cons_self _ _)

end Queries

section Progress

variable {clr : Clr} {view : clr.State → Metadata} {instrumenter : ModuleInstrumenter} {bridge : HookBridge}

theorem methodCalls_append (moduleName : WString) (description : mdMethodDef → WString) (tokenCounter : UInt64)
    (first second : List (TypeDef × mdMethodDef)) :
    methodCalls moduleName bridge description tokenCounter (first ++ second) =
      methodCalls moduleName bridge description tokenCounter first ++
        methodCalls moduleName bridge description (tokenCounter + UInt64.ofNat first.length) second := by
  induction first generalizing tokenCounter with
  | nil => simp [methodCalls]
  | cons pair rest ih =>
    have counter : tokenCounter + UInt64.ofNat (pair :: rest).length = tokenCounter + 1 + UInt64.ofNat rest.length := by
      rw [List.length_cons, UInt64.ofNat_add, UInt64.add_assoc, UInt64.add_comm 1]
      rfl
    rw [counter, List.cons_append, methodCalls, ih]
    rfl

/-- The host after the calls for some methods: the tables are as they were, and the counter
and the calls have gone on. -/
structure Progress (view : clr.State → Metadata) (instrumenter : ModuleInstrumenter) (bridge : HookBridge)
    (s : HostState clr) (pairs : List (TypeDef × mdMethodDef)) (s' : HostState clr) : Prop where
  tables : view s'.runtime = view s.runtime
  counter : s'.metadataRegistry.tokenCounter = s.metadataRegistry.tokenCounter + UInt64.ofNat pairs.length
  calls : s'.calls = s.calls ++ methodCalls instrumenter.moduleName bridge (view s.runtime).description
    s.metadataRegistry.tokenCounter pairs

theorem Queried.progress {s s' : HostState clr} (queried : Queried view s s') :
    Progress view instrumenter bridge s [] s' := by
  obtain ⟨runtime, rfl, same⟩ := queried
  exact ⟨same, (UInt64.add_zero _).symm, (List.append_nil _).symm⟩

theorem Progress.trans {s s' s'' : HostState clr} {pairs pairs' : List (TypeDef × mdMethodDef)}
    (first : Progress view instrumenter bridge s pairs s') (second : Progress view instrumenter bridge s' pairs' s'') :
    Progress view instrumenter bridge s (pairs ++ pairs') s'' where
  tables := second.tables.trans first.tables
  counter := by rw [second.counter, first.counter, List.length_append, UInt64.ofNat_add, UInt64.add_assoc]
  calls := by rw [second.calls, first.calls, first.counter, first.tables, methodCalls_append, List.append_assoc]

/-- The runtime hands out a body of the method on which the rewriter breaks. -/
def Clr.BreaksOn (clr : Clr) (moduleId : ModuleID) (methodDef : mdMethodDef) (bridge : HookBridge) : Prop :=
  ∃ runtime token, ¬FAILED (clr.answer (.GetILFunctionBody moduleId methodDef) runtime).1.1 ∧
    Breaks clr.platform (clr.answer (.GetILFunctionBody moduleId methodDef) runtime).1.2
      ⟨bridge.methodEnterHookDef, bridge.methodExitHookDef, some token⟩

/-- The rewriter has broken on one of some methods, behind the calls for it. -/
structure Crashed (view : clr.State → Metadata) (instrumenter : ModuleInstrumenter) (bridge : HookBridge)
    (s : HostState clr) (pairs : List (TypeDef × mdMethodDef)) (stop : Stop) (s' : HostState clr) : Prop where
  undefined : stop = .undefined
  last : ∃ done type methodDef rest, pairs = done ++ (type, methodDef) :: rest ∧
    Progress view instrumenter bridge s (done ++ [(type, methodDef)]) s' ∧
      clr.BreaksOn instrumenter.moduleId methodDef bridge

theorem Crashed.between {s s' s'' : HostState clr} {before pairs : List (TypeDef × mdMethodDef)} {stop : Stop}
    (progress : Progress view instrumenter bridge s before s')
    (crashed : Crashed view instrumenter bridge s' pairs stop s'') (after : List (TypeDef × mdMethodDef)) :
    Crashed view instrumenter bridge s (before ++ (pairs ++ after)) stop s'' where
  undefined := crashed.undefined
  last := by
    obtain ⟨done, type, methodDef, rest, rfl, later, breaks⟩ := crashed.last
    refine ⟨before ++ done, type, methodDef, rest ++ after, by simp, ?_, breaks⟩
    rw [List.append_assoc]
    exact progress.trans later

/-- A loop makes the progress of its turns. -/
theorem forM_ends {Item : Type} {items : List Item} {turn : Item → Host clr Unit}
    {pairs : Item → List (TypeDef × mdMethodDef)} {metadata : Metadata}
    (turns : ∀ item ∈ items, ∀ s : HostState clr, view s.runtime = metadata →
      Ends (turn item) s (fun _ s' => Progress view instrumenter bridge s (pairs item) s')
        (Crashed view instrumenter bridge s (pairs item)))
    {s : HostState clr} (same : view s.runtime = metadata) :
    Ends (items.forM turn) s (fun _ s' => Progress view instrumenter bridge s (items.flatMap pairs) s')
      (Crashed view instrumenter bridge s (items.flatMap pairs)) := by
  induction items generalizing s with
  | nil => exact Ends.pure (Queried.refl s).progress
  | cons item rest ih =>
    obtain ⟨first, others⟩ := List.forall_mem_cons.mp turns
    refine Ends.bind ((first s same).imp (fun _ middle early => ?_) fun stop s' crashed =>
      Crashed.between (Queried.refl s).progress crashed _)
    apply (ih others (early.tables.trans same)).imp (fun _ s' late => early.trans late)
    intro stop s' crashed
    have behind := Crashed.between early crashed []
    rwa [List.append_nil] at behind

private theorem fail_ends {failure : Failure} (own : failure ≠ .outOfFuel) (s : HostState clr) :
    Ends (fail failure) s (fun _ s' => s' = s) fun stop s' =>
      stop = .undefined ∧ s' = s ∧ failure.isHResult = false := by
  cases failure with
  | E_FAIL => exact rfl
  | COR_E_INVALIDPROGRAM => exact rfl
  | invalidPointer => exact ⟨rfl, rfl, rfl⟩
  | outOfBounds => exact ⟨rfl, rfl, rfl⟩
  | outOfFuel => exact absurd rfl own

private theorem setBody_ends (serves : Serves clr view) (moduleId : ModuleID) (methodDef : mdMethodDef)
    (rewriter : ILRewriter) (code : List UInt8) (s : HostState clr) :
    Ends (SetBody moduleId methodDef rewriter code) s (fun _ s' => Queried view s s') fun stop s' =>
      stop = .undefined ∧ Queried view s s' ∧ ∃ failure, failure.isHResult = false ∧
        rewriter.WrittenBody clr.platform code = .error failure := by
  refine Ends.bind ((call_returns serves _ rfl).imp fun hr allocating asked => ?_).ends
  obtain ⟨-, first⟩ := asked
  split
  · exact Ends.pure first
  · refine Ends.bind ((call_returns serves _ rfl).imp fun allocated middle asked => ?_).ends
    obtain ⟨-, second⟩ := asked
    have queried := first.trans second
    split
    · split
      · rename_i failure written
        have own : failure ≠ .outOfFuel := by
          rcases WrittenBody_refuses written with rfl | rfl <;> decide
        refine (fail_ends own middle).imp (fun hr s' same => ?_) fun stop s' stopped => ?_
        · rw [same]
          exact queried
        · obtain ⟨rfl, rfl, breaks⟩ := stopped
          exact ⟨rfl, queried, failure, breaks, written⟩
      · refine Ends.bind ((call_returns serves _ rfl).imp fun hr s' asked => Ends.pure ?_).ends
        exact queried.trans asked.2
    · exact Ends.pure queried

/-- Injecting hooks shows among the calls, and comes back unless the rewriter breaks. -/
private theorem injectEnterExitHooks_ends (serves : Serves clr view) (moduleId : ModuleID)
    (methodDef onEnterHook onExitHook : mdMethodDef) (hookArg : Option UInt64) (s : HostState clr) :
    Ends (Host.InjectEnterExitHooks moduleId methodDef onEnterHook onExitHook hookArg) s
      (fun _ s' => Queried view { s with calls := s.calls ++
        [.InjectEnterExitHooks methodDef onEnterHook onExitHook hookArg] } s') fun stop s' => stop = .undefined ∧
      Queried view { s with calls := s.calls ++ [.InjectEnterExitHooks methodDef onEnterHook onExitHook hookArg] } s' ∧
      ∃ runtime, ¬FAILED (clr.answer (.GetILFunctionBody moduleId methodDef) runtime).1.1 ∧
        Breaks clr.platform (clr.answer (.GetILFunctionBody moduleId methodDef) runtime).1.2
          ⟨onEnterHook, onExitHook, hookArg⟩ := by
  refine Ends.bind (Returns.ends ⟨(), _, rfl, Ends.bind ((call_returns serves _ rfl).imp ?_).ends⟩)
  rintro ⟨hr, body⟩ middle ⟨answer, first⟩
  dsimp only
  split
  · exact Ends.pure first
  · rename_i present
    have handed (breaks : Breaks clr.platform body ⟨onEnterHook, onExitHook, hookArg⟩) : ∃ runtime,
        ¬FAILED (clr.answer (.GetILFunctionBody moduleId methodDef) runtime).1.1 ∧
          Breaks clr.platform (clr.answer (.GetILFunctionBody moduleId methodDef) runtime).1.2
            ⟨onEnterHook, onExitHook, hookArg⟩ := by
      refine ⟨s.runtime, ?_⟩
      rw [← show (hr, body) = (clr.answer (.GetILFunctionBody moduleId methodDef) s.runtime).1 from answer]
      exact ⟨present, breaks⟩
    split
    · rename_i failure run
      refine (fail_ends (Rewrite_stops run) middle).imp (fun hr s' same => ?_) fun stop s' stopped => ?_
      · rw [same]
        exact first
      · obtain ⟨rfl, rfl, breaks⟩ := stopped
        exact ⟨rfl, first, handed ⟨failure, breaks, by rw [run]; rfl⟩⟩
    · rename_i rewriter code run
      refine (setBody_ends serves moduleId methodDef rewriter code middle).imp
        (fun _ s' second => first.trans second) ?_
      rintro stop s' ⟨rfl, second, failure, breaks, written⟩
      exact ⟨rfl, first.trans second, handed ⟨failure, breaks, by rw [run]; exact written⟩⟩

private theorem registerMethod_returns (s : HostState clr) (assemblyName typeName signature : WString) :
    Returns (Host.RegisterMethod assemblyName typeName signature) s fun metadata s' =>
      metadata = ⟨s.metadataRegistry.tokenCounter + 1, assemblyName, typeName, signature⟩ ∧ s'.runtime = s.runtime ∧
        s'.metadataRegistry.tokenCounter = s.metadataRegistry.tokenCounter + 1 ∧
        s'.calls = s.calls ++ [.RegisterMethod metadata] :=
  ⟨_, _, rfl, rfl, rfl, rfl, rfl⟩

private theorem instrumentMethod_ends (serves : Serves clr view) {s : HostState clr}
    (member : type ∈ (view s.runtime).types) (inside : methodDef ∈ type.methods) :
    Ends (InstrumentMethod instrumenter bridge type.info methodDef) s
      (fun _ s' => Progress view instrumenter bridge s [(type, methodDef)] s')
      (Crashed view instrumenter bridge s [(type, methodDef)]) := by
  have listed : methodDef ∈ (view s.runtime).methods := List.mem_flatMap.mpr ⟨type, member, inside⟩
  obtain ⟨success, name⟩ := serves.methodProps s.runtime methodDef listed
  refine Ends.bind (Returns.ends (Returns.bind (Returns.bind ((call_returns serves _ rfl).imp
    fun answer asked described => ?_))))
  obtain ⟨rfl, runtime, rfl, same⟩ := described
  refine Returns.bind (comOp_returns success (Returns.pure (Returns.pure ?_)))
  refine Ends.bind ((registerMethod_returns _ _ _ _).imp fun metadata registered known => ?_).ends
  obtain ⟨rfl, tables, counter, calls⟩ := known
  have progress (s' : HostState clr) (injected : Queried view { registered with calls := registered.calls ++
      [.InjectEnterExitHooks methodDef bridge.methodEnterHookDef bridge.methodExitHookDef
        (some (s.metadataRegistry.tokenCounter + 1))] } s') :
      Progress view instrumenter bridge s [(type, methodDef)] s' := by
    obtain ⟨runtime', rfl, same'⟩ := injected
    refine ⟨same'.trans ((congrArg view tables).trans same), counter, ?_⟩
    simp only [calls, name, methodCalls, List.append_assoc, List.singleton_append]
    rfl
  refine Ends.bind ((injectEnterExitHooks_ends serves _ _ _ _ _ _).imp
    (fun hr s' injected => ?_) fun stop s' stopped => ?_)
  · exact Ends.pure (progress s' injected)
  · obtain ⟨rfl, injected, runtime', present, breaks⟩ := stopped
    exact ⟨rfl, [], type, methodDef, [], rfl, progress s' injected, runtime', _, present, breaks⟩

theorem instrumentType_ends (serves : Serves clr view) {s : HostState clr} (member : type ∈ (view s.runtime).types) :
    Ends (InstrumentType instrumenter bridge type.info) s
      (fun _ s' => Progress view instrumenter bridge s (type.methods.map (type, ·)) s')
      (Crashed view instrumenter bridge s (type.methods.map (type, ·))) := by
  refine Ends.bind ((getTypeMethods_returns serves member).imp fun methodDefs middle read => ?_).ends
  obtain ⟨rfl, queried⟩ := read
  have pairs : type.methods.map (type, ·) = type.methods.flatMap fun methodDef => [(type, methodDef)] := by
    rw [← List.map_eq_flatMap]
  rw [pairs]
  refine (forM_ends (fun methodDef inside s same => ?_) queried.view_eq).imp (fun _ s' progress =>
    queried.progress.trans progress) fun stop s' crashed => ?_
  · exact instrumentMethod_ends serves (same ▸ member) inside
  · have behind := Crashed.between queried.progress crashed []
    rwa [List.append_nil] at behind

theorem forM_map {Item Value : Type} (items : List Item) (convert : Item → Value) (turn : Value → Host clr Unit) :
    (items.map convert).forM turn = items.forM fun item => turn (convert item) := by
  induction items with
  | nil => rfl
  | cons item rest ih => exact congrArg (turn (convert item) >>= ·) (funext fun _ => ih)

/-- A run of `InstrumentMethods` over well-formed tables makes its calls, if neither the walk goes on
for ever nor the rewriter breaks. -/
theorem instrumentMethods_ends (serves : Serves clr view) {s : HostState clr}
    (wellFormed : (view s.runtime).WellFormed) :
    Ends (InstrumentMethods instrumenter bridge) s (fun _ s' =>
      Progress view instrumenter bridge s (profiledMethods (view s.runtime) s.config.namespaceToProfile) s')
      fun stop s' => Adrift view s.turns (view s.runtime).types s stop s' ∨
        Crashed view instrumenter bridge s (profiledMethods (view s.runtime) s.config.namespaceToProfile) stop s' := by
  refine Ends.bind (Returns.ends ⟨s, s, rfl, Ends.bind (Ends.bind ((getModuleTypes_returns serves).imp
    fun infos listing read => ?_).ends)⟩)
  obtain ⟨rfl, first⟩ := read
  have same := first.view_eq
  have listed : ∀ type ∈ (view s.runtime).types, type ∈ (view listing.runtime).types := by
    rw [same]
    exact fun _ member => member
  have filters := filterTypes_ends serves (same ▸ wellFormed) s.config.namespaceToProfile listed
  rw [first.turns_eq] at filters
  refine filters.imp (fun infos filtered read => ?_) fun stop s' adrift =>
    .inl (adrift.behind first (List.Subset.refl _))
  obtain ⟨second, rfl⟩ := read
  have queried := first.trans second
  rw [forM_map, same, profiledMethods]
  refine (forM_ends (fun type kept s same => ?_) queried.view_eq).imp (fun _ s' progress =>
    queried.progress.trans progress) fun stop s' crashed => .inr ?_
  · exact instrumentType_ends serves (same ▸ (List.mem_filter.mp kept).1)
  · have behind := Crashed.between queried.progress crashed []
    rwa [List.append_nil] at behind

end Progress

section Coverage

variable {clr : Clr} {view : clr.State → Metadata}

theorem mem_profiledMethods {metadata : Metadata} {namespaceFilter : WString} :
    (type, methodDef) ∈ profiledMethods metadata namespaceFilter ↔
      type ∈ metadata.types ∧ methodDef ∈ type.methods ∧ InNamespace metadata namespaceFilter type := by
  simp only [profiledMethods, List.mem_flatMap, List.mem_filter, decide_eq_true_eq, List.mem_map, Prod.mk.injEq]
  constructor
  · rintro ⟨other, ⟨listed, inside⟩, method, member, rfl, rfl⟩
    exact ⟨listed, member, inside⟩
  · rintro ⟨listed, member, inside⟩
    exact ⟨type, ⟨listed, inside⟩, methodDef, member, rfl, rfl⟩

theorem nodup_profiledMethods {metadata : Metadata} (wellFormed : metadata.WellFormed)
    (namespaceFilter : WString) :
    ((profiledMethods metadata namespaceFilter).map Prod.snd).Nodup := by
  have kept : ((profiledMethods metadata namespaceFilter).map Prod.snd).Sublist metadata.methods := by
    rw [profiledMethods, List.map_flatMap, Metadata.methods]
    simp only [List.map_map, Function.comp_def, List.map_id']
    exact List.Sublist.flatMap List.filter_sublist _
  exact kept.nodup wellFormed.methods

/-- Depths that fall from a class to the one around it leave the walk an end. -/
private theorem turns_enough {metadata : Metadata} (acyclic : metadata.Acyclic) :
    ∃ enough depth, metadata.Ranked depth ∧ ∀ type ∈ metadata.types, depth type.token < enough := by
  obtain ⟨depth, ranked⟩ := acyclic
  refine ⟨(metadata.types.map fun type => depth type.token).sum + 1, depth, ranked, fun type member => ?_⟩
  exact Nat.lt_succ_of_le (List.le_sum_of_mem (List.mem_map_of_mem member))

/-- A class in the profiled namespace, one nested in it and one beside it. -/
def nestedTables : Tables where
  types := [⟨0x02000002, wide "N.Outer", tdPublic, none, [0x06000001]⟩,
    ⟨0x02000003, wide "Inner", tdNestedPublic, some 0x02000002, [0x06000002]⟩,
    ⟨0x02000004, wide "Other", tdPublic, none, [0x06000003]⟩]
  description _ := wide "M"
  tokens := by decide
  ordered := by simp

def nestedHost : HostState (tableRuntime (wide "App") 0) :=
    CorProfiler.new nestedTables (some ⟨true, [0x4E, 0x2E], []⟩) 8

/-- A class `A`, and a filter that has a NUL behind that name. -/
def nulTables : Tables where
  types := [⟨0x02000002, wide "A", tdPublic, none, [0x06000001]⟩]
  description _ := wide "M"
  tokens := by decide
  ordered := by simp

def nulHost : HostState (tableRuntime (wide "App") 0) :=
    CorProfiler.new nulTables (some ⟨true, [0x41, 0x00, 0x42], []⟩) 8

end Coverage

end ClrProfiling
