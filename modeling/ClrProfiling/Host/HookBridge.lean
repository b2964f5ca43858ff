import ClrProfiling.Host.Coverage

/-! Whether the hooks are hooked themselves: the bridge type stands among the types of the
module when these are filtered, and nothing but its name spares it. -/

namespace ClrProfiling

open Effect Host ModuleInstrumenter TargetModuleInstrumenter

/-- The host behind the definition of a class and some methods, all of them new. -/
structure Adds {clr : Clr} (view : clr.State → Metadata) (s : HostState clr) (type : TypeDef) (s' : HostState clr) :
    Prop where
  host : ∃ runtime, s' = { s with runtime }
  types : (view s'.runtime).types = (view s.runtime).types ++ [type]
  token : type.token ∉ (view s.runtime).types.map TypeDef.token
  distinct : type.methods.Nodup
  methods : ∀ methodDef ∈ type.methods, methodDef ∉ (view s.runtime).methods

section Bridge

variable {clr : Clr} {view : clr.State → Metadata}

variable {s s' s'' : HostState clr}

theorem comOp_ok {hr value : HRESULT} (run : ComOp hr s = (.ok value, s')) : ¬FAILED hr ∧ s' = s := by
  rw [ComOp] at run
  split at run
  · cases run
  · rename_i success
    cases run
    exact ⟨success, rfl⟩

private theorem checked_ok {Value : Type} {value : Value} {request : Call (HRESULT × Value)}
    (run : checked request s = (.ok value, s')) : ¬FAILED (clr.answer request s.runtime).1.1 ∧
      value = (clr.answer request s.runtime).1.2 ∧ s' = { s with runtime := (clr.answer request s.runtime).2 } := by
  obtain ⟨_, _, asked, rest⟩ := bind_eq_ok_iff.mp run
  cases asked
  obtain ⟨_, _, tested, last⟩ := bind_eq_ok_iff.mp rest
  obtain ⟨success, rfl⟩ := comOp_ok tested
  cases last
  exact ⟨success, rfl, rfl⟩

private theorem check_ok {request : Call HRESULT} (run : check request s = (.ok (), s')) :
    s' = { s with runtime := (clr.answer request s.runtime).2 } := by
  obtain ⟨_, _, asked, rest⟩ := bind_eq_ok_iff.mp run
  cases asked
  obtain ⟨_, _, tested, last⟩ := bind_eq_ok_iff.mp rest
  obtain ⟨-, rfl⟩ := comOp_ok tested
  cases last
  rfl

namespace Adds

private theorem asked (adds : Adds view s type s') {Answer : Type} (serves : Serves clr view) (request : Call Answer)
    (query : request.adds = false) :
    Adds view s type { s' with runtime := (clr.answer request s'.runtime).2 } where
  host := by
    obtain ⟨runtime, rfl⟩ := adds.host
    exact ⟨_, rfl⟩
  types := by
    rw [serves.keeps request s'.runtime query]
    exact adds.types
  token := adds.token
  distinct := adds.distinct
  methods := adds.methods

theorem checked {Value : Type} {value : Value} {request : Call (HRESULT × Value)} (adds : Adds view s type s')
    (serves : Serves clr view) (query : request.adds = false) (run : Host.checked request s' = (.ok value, s'')) :
    Adds view s type s'' := by
  obtain ⟨-, -, rfl⟩ := checked_ok run
  exact adds.asked serves request query

theorem check {request : Call HRESULT} (adds : Adds view s type s') (serves : Serves clr view)
    (query : request.adds = false) (run : Host.check request s' = (.ok (), s'')) : Adds view s type s'' := by
  rw [check_ok run]
  exact adds.asked serves request query

theorem setNewBody {moduleId : ModuleID} {methodDef : mdMethodDef} {pBody : List UInt8} (adds : Adds view s type s')
    (serves : Serves clr view) (run : SetNewBody moduleId methodDef pBody s' = (.ok (), s'')) :
    Adds view s type s'' := by
  obtain ⟨allocated, _, alloc, rest⟩ := bind_eq_ok_iff.mp run
  cases alloc
  split at rest
  · exact (adds.asked serves _ rfl).check serves rfl rest
  · cases rest

theorem defineType (defines : Defines clr view) {name : WString} {flags : UInt32} {base : mdToken}
    {typeDef : mdTypeDef} (run : Host.checked (.DefineTypeDef name flags base) s = (.ok typeDef, s')) :
    Adds view s ⟨typeDef, name, flags, none, []⟩ s' := by
  obtain ⟨success, rfl, rfl⟩ := checked_ok run
  obtain ⟨fresh, tables⟩ := defines.typeDef name flags base s.runtime success
  exact ⟨⟨_, rfl⟩, congrArg Metadata.types tables, fresh, List.nodup_nil, nofun⟩

/-- A method of the class. -/
theorem defineMethod (adds : Adds view s type s') (defines : Defines clr view) {name : WString}
    {flags implFlags : UInt32}
    {signature : List UInt8} {methodDef : mdMethodDef}
    (run : Host.checked (.DefineMethod type.token name flags signature implFlags) s' = (.ok methodDef, s'')) :
    Adds view s { type with methods := type.methods ++ [methodDef] } s'' := by
  obtain ⟨success, rfl, rfl⟩ := checked_ok run
  obtain ⟨fresh, tables⟩ := defines.method type.token name flags signature implFlags s'.runtime success
  rw [Metadata.methods, adds.types, List.flatMap_append, List.mem_append, not_or, List.flatMap_singleton] at fresh
  refine ⟨?_, ?_, adds.token, ?_, ?_⟩
  · obtain ⟨runtime, rfl⟩ := adds.host
    exact ⟨_, rfl⟩
  · have others : ∀ other ∈ (view s.runtime).types, other.token ≠ type.token := by
      intro other listed same
      exact adds.token (same ▸ List.mem_map_of_mem listed)
    rw [tables, Metadata.addMethod, adds.types, List.map_append, List.map_singleton, if_pos rfl]
    refine congrArg (· ++ _) ((List.map_congr_left fun other listed => ?_).trans (List.map_id _))
    exact if_neg (others other listed)
  · refine List.nodup_append.mpr ⟨adds.distinct, List.nodup_singleton _, fun other member added last same => ?_⟩
    rw [same, List.mem_singleton.mp last] at member
    exact fresh.2 member
  · intro other member
    rcases List.mem_append.mp member with old | added
    · exact adds.methods other old
    · rw [List.mem_singleton.mp added]
      exact fresh.1

/-- The tables stay well formed. -/
theorem wellFormed (adds : Adds view s type s') (wellFormed : (view s.runtime).WellFormed) (clean : 0 ∉ type.name)
    (alone : type.enclosing = none) (visible : ¬tdNestedPublic ≤ type.flags &&& tdVisibilityMask) :
    (view s'.runtime).WellFormed where
  tokens := by
    rw [adds.types, List.map_append]
    refine List.nodup_append.mpr ⟨wellFormed.tokens, List.nodup_singleton _, fun token listed added last same => ?_⟩
    rw [same, List.mem_singleton.mp last] at listed
    exact adds.token listed
  methods := by
    rw [Metadata.methods, adds.types, List.flatMap_append, List.flatMap_singleton]
    refine List.nodup_append.mpr ⟨wellFormed.methods, adds.distinct, fun methodDef listed added last same => ?_⟩
    exact adds.methods added last (same ▸ listed)
  names := by
    rw [adds.types]
    exact List.forall_mem_append.mpr ⟨wellFormed.names, List.forall_mem_singleton.mpr clean⟩
  enclosing := by
    rw [adds.types]
    refine List.forall_mem_append.mpr ⟨fun other listed token enclosing => ?_, List.forall_mem_singleton.mpr ?_⟩
    · obtain ⟨outer, known, named⟩ := wellFormed.enclosing other listed token enclosing
      exact ⟨outer, List.mem_append_left _ known, named⟩
    · rw [alone]
      intro token none
      cases none
  visibility := by
    rw [adds.types]
    refine List.forall_mem_append.mpr ⟨wellFormed.visibility, List.forall_mem_singleton.mpr ?_⟩
    rw [alone]
    exact iff_of_false (by decide) visible

end Adds

/-- The class `AddHookBridgeType` defines. -/
def bridgeTypeDef (tickCount : UInt32) (bridgeType : mdTypeDef) (methods : List mdMethodDef) : TypeDef where
  token := bridgeType
  name := bridgeTypeName tickCount
  flags := tdClass ||| tdAbstract ||| tdSealed
  enclosing := none
  methods := methods

private theorem addHookMethod_ok (defines : Defines clr view) (adds : Adds view s type s') {moduleId : ModuleID}
    {name : WString} {hookRef methodDef : mdMethodDef}
    (run : AddHookMethod moduleId type.token name hookRef s' = (.ok methodDef, s'')) :
    Adds view s { type with methods := type.methods ++ [methodDef] } s'' := by
  obtain ⟨_, _, define, rest⟩ := bind_eq_ok_iff.mp run
  obtain ⟨_, _, body, last⟩ := bind_eq_ok_iff.mp rest
  cases last
  exact (adds.defineMethod defines define).setNewBody defines.toServes body

/-- What stands behind the call: the class, with its four methods. -/
theorem addHookBridgeType_ok (defines : Defines clr view) {moduleId : ModuleID} {references : ProfilerCoreReferences}
    {bridge : HookBridge} (run : AddHookBridgeType moduleId references s = (.ok bridge, s')) :
    ∃ injectProfilerCore bridgeCtor, Adds view s (bridgeTypeDef (clr.answer .GetTickCount s.runtime).1 bridge.bridgeType
      [injectProfilerCore, bridgeCtor, bridge.methodEnterHookDef, bridge.methodExitHookDef]) s' := by
  obtain ⟨_, ticked, tick, rest⟩ := bind_eq_ok_iff.mp run
  cases tick
  obtain ⟨bridgeType, _, define, rest⟩ := bind_eq_ok_iff.mp rest
  obtain ⟨injectProfilerCore, _, inject, rest⟩ := bind_eq_ok_iff.mp rest
  obtain ⟨_, _, map, rest⟩ := bind_eq_ok_iff.mp rest
  obtain ⟨_, _, param, rest⟩ := bind_eq_ok_iff.mp rest
  obtain ⟨_, _, marshal, rest⟩ := bind_eq_ok_iff.mp rest
  obtain ⟨bridgeCtor, _, ctor, rest⟩ := bind_eq_ok_iff.mp rest
  obtain ⟨_, _, ctorBody, rest⟩ := bind_eq_ok_iff.mp rest
  obtain ⟨enterHook, _, enter, rest⟩ := bind_eq_ok_iff.mp rest
  obtain ⟨exitHook, _, exit, last⟩ := bind_eq_ok_iff.mp rest
  cases last
  have serves := defines.toServes
  have injected := (Adds.defineType defines define).defineMethod defines inject
  have imported := ((injected.check serves rfl map).checked serves rfl param).check serves rfl marshal
  have constructed := (imported.defineMethod defines ctor).setNewBody serves ctorBody
  have hooked := addHookMethod_ok defines (addHookMethod_ok defines constructed enter) exit
  have kept := serves.keeps .GetTickCount s.runtime rfl
  refine ⟨injectProfilerCore, bridgeCtor, hooked.host, ?_, ?_, hooked.distinct, ?_⟩
  · rw [← kept]
    exact hooked.types
  · rw [← kept]
    exact hooked.token
  · rw [← kept]
    exact hooked.methods

theorem bridgeTypeName_clean (tickCount : UInt32) : 0 ∉ bridgeTypeName tickCount := by
  intro member
  rcases List.mem_append.mp member with fixed | digits
  · exact absurd fixed (by decide +kernel)
  · obtain ⟨char, written, null⟩ := List.mem_map.mp digits
    have digit := Nat.isDigit_of_mem_toDigits (by decide) (by decide) written
    simp only [Char.isDigit, Bool.and_eq_true, decide_eq_true_eq] at digit
    have value := congrArg UInt16.toNat null
    have low := UInt32.le_iff_toNat_le.mp digit.1
    have high := UInt32.le_iff_toNat_le.mp digit.2
    rw [UInt16.toNat_ofNat'] at value
    simp only [Char.toNat] at value
    simp at low high value
    omega

end Bridge

section Filter

variable {clr : Clr} {view : clr.State → Metadata}

instance : Std.Refl (Queried view) := ⟨Queried.refl⟩

instance : IsTrans (HostState clr) (Queried view) := ⟨fun _ _ _ => Queried.trans⟩

private theorem moves_call (serves : Serves clr view) {Answer : Type} (request : Call Answer)
    (query : request.adds = false) : Moves (Queried view) (call request) :=
  ⟨fun s => ⟨_, rfl, serves.keeps request s.runtime query⟩⟩

private theorem moves_comOp (hr : HRESULT) : Moves (Queried view) (ComOp hr) :=
  (Moves.raise _).ite (Moves.pure hr)

private theorem moves_nestedWalk (serves : Serves clr view) (namespaceFilter : WString) (fuel : Nat)
    (typeDef : mdTypeDef) :
    Moves (Queried view) (NestedWalk namespaceFilter fuel typeDef) := by
  induction fuel generalizing typeDef with
  | zero => exact Moves.raise _
  | succ fuel ih =>
    refine (moves_call serves _ rfl).bind fun answer => (Moves.pure _).ite ?_
    refine (moves_call serves _ rfl).bind fun props => (moves_comOp props.1).bind fun hr => (Moves.pure _).ite ?_
    exact (Moves.pure _).ite ((ih answer.2).ite (Moves.pure _))

private theorem moves_isTypeInNamespace (serves : Serves clr view) (typeName namespaceFilter : WString)
    (typeDef : mdTypeDef) (flags : UInt32) :
    Moves (Queried view) (IsTypeInNamespace typeName namespaceFilter typeDef flags) :=
  (Moves.pure _).ite ((Moves.get.bind fun _ => moves_nestedWalk serves ..).ite (Moves.pure _))

private theorem moves_filterTypes (serves : Serves clr view) (namespaceFilter : WString) (types : List TypeInfo) :
    Moves (Queried view) (FilterTypes namespaceFilter types) := by
  induction types with
  | nil => exact Moves.pure _
  | cons typeInfo rest ih => exact (moves_isTypeInNamespace serves ..).bind fun _ => ih.bind fun _ => Moves.pure _

/-- A type that is left has passed the namespace test. -/
private theorem filterTypes_ok {namespaceFilter : WString} {types : List TypeDef} {kept : List TypeInfo}
    {s s' : HostState clr}
    (run : FilterTypes namespaceFilter (types.map TypeDef.info) s = (.ok kept, s')) :
    ∃ selected : List TypeDef, kept = selected.map TypeDef.info ∧ ∀ type ∈ selected, type ∈ types ∧
      ∃ before after : HostState clr,
        IsTypeInNamespace (cString type.name) namespaceFilter type.token type.flags before = (.ok true, after) := by
  induction types generalizing kept s s' with
  | nil =>
    cases run
    exact ⟨[], rfl, nofun⟩
  | cons type rest ih =>
    obtain ⟨inNamespace, tested, test, run⟩ := bind_eq_ok_iff.mp run
    obtain ⟨others, filtered, filter, last⟩ := bind_eq_ok_iff.mp run
    obtain ⟨selected, rfl, passed⟩ := ih filter
    cases last
    have later : ∀ other ∈ selected, other ∈ type :: rest ∧ ∃ before after : HostState clr,
        IsTypeInNamespace (cString other.name) namespaceFilter other.token other.flags before = (.ok true, after) := by
      intro other member
      obtain ⟨listed, test⟩ := passed other member
      exact ⟨List.mem_cons_of_mem _ listed, test⟩
    cases inNamespace with
    | false => exact ⟨selected, rfl, later⟩
    | true => exact ⟨type :: selected, rfl, List.forall_mem_cons.mpr ⟨⟨List.mem_cons_self, s, tested, test⟩, later⟩⟩

private theorem bridge_filtered {namespaceFilter : WString} {tickCount : UInt32} {bridgeType : mdTypeDef}
    {methods : List mdMethodDef} {type : TypeDef} (bridge : type = bridgeTypeDef tickCount bridgeType methods)
    (other : ¬Matches (bridgeTypeName tickCount) namespaceFilter) (s s' : HostState clr) :
    IsTypeInNamespace (cString type.name) namespaceFilter type.token type.flags s ≠ (.ok true, s') := by
  have clean := bridgeTypeName_clean tickCount
  have named : type.name = bridgeTypeName tickCount := congrArg TypeDef.name bridge
  have plain : IsNestedType type.flags = false := by
    rw [bridge]
    exact (by decide : IsNestedType (tdClass ||| tdAbstract ||| tdSealed) = false)
  rw [IsTypeInNamespace, named, cString_clean clean, if_neg (mt (wcsncmp_eq_zero_iff clean).mp other), plain]
  intro run
  cases run

end Filter

section Calls

theorem mem_methodCalls (moduleName : WString) (bridge : HookBridge) (description : mdMethodDef → WString)
    (tokenCounter : UInt64) {pairs : List (TypeDef × mdMethodDef)} {methodDef : mdMethodDef} :
    (∃ onEnterHook onExitHook hookArg, .InjectEnterExitHooks methodDef onEnterHook onExitHook hookArg ∈
      methodCalls moduleName bridge description tokenCounter pairs) ↔ ∃ type, (type, methodDef) ∈ pairs := by
  induction pairs generalizing tokenCounter with
  | nil => simp [methodCalls]
  | cons pair rest ih =>
    obtain ⟨type, methodDef'⟩ := pair
    constructor
    · rintro ⟨onEnterHook, onExitHook, hookArg, call⟩
      rcases List.mem_cons.mp call with other | call
      · cases other
      rcases List.mem_cons.mp call with this | call
      · cases this
        exact ⟨type, List.mem_cons_self⟩
      · obtain ⟨other, listed⟩ := (ih _).mp ⟨onEnterHook, onExitHook, hookArg, call⟩
        exact ⟨other, List.mem_cons_of_mem _ listed⟩
    · rintro ⟨other, listed⟩
      rcases List.mem_cons.mp listed with same | listed
      · cases same
        exact ⟨_, _, _, List.mem_cons_of_mem _ List.mem_cons_self⟩
      · obtain ⟨onEnterHook, onExitHook, hookArg, call⟩ := (ih (tokenCounter + 1)).mpr ⟨other, listed⟩
        exact ⟨onEnterHook, onExitHook, hookArg, List.mem_cons_of_mem _ (List.mem_cons_of_mem _ call)⟩

end Calls

section Sparing

variable {clr : Clr} {view : clr.State → Metadata} {instrumenter : ModuleInstrumenter} {bridge : HookBridge}
  {s s' s'' : HostState clr}

/-- `InstrumentMethods` passes no method of a class to `InjectEnterExitHooks`. -/
def Spares (instrumenter : ModuleInstrumenter) (bridge : HookBridge) (s : HostState clr) (type : TypeDef) : Prop :=
  ∀ methodDef ∈ type.methods, ∀ onEnterHook onExitHook hookArg,
    .InjectEnterExitHooks methodDef onEnterHook onExitHook hookArg ∉
      (InstrumentMethods instrumenter bridge s).2.calls.drop s.calls.length

private theorem spares_iff {outcome : Except Stop Unit} {pairs : List (TypeDef × mdMethodDef)}
    (run : InstrumentMethods instrumenter bridge s = (outcome, s'))
    (progress : Progress view instrumenter bridge s pairs s') (type : TypeDef) :
    Spares instrumenter bridge s type ↔ ∀ methodDef ∈ type.methods, ∀ other, (other, methodDef) ∉ pairs := by
  rw [Spares, run, progress.calls, List.drop_left]
  apply forall₂_congr
  intro methodDef _
  constructor
  · intro spared other listed
    obtain ⟨onEnterHook, onExitHook, hookArg, call⟩ := (mem_methodCalls _ _ _ _).mpr ⟨other, listed⟩
    exact spared onEnterHook onExitHook hookArg call
  · intro absent onEnterHook onExitHook hookArg call
    obtain ⟨other, listed⟩ := (mem_methodCalls _ _ _ _).mp ⟨onEnterHook, onExitHook, hookArg, call⟩
    exact absent other listed

/-- However a run ends, it has made the calls for methods that it is to make them for. -/
private theorem progress_of_ends {action : Host clr Unit} {pairs : List (TypeDef × mdMethodDef)}
    (ends : Ends action s (fun _ s' => Progress view instrumenter bridge s pairs s')
      (Crashed view instrumenter bridge s pairs)) :
    ∃ done ⊆ pairs, Progress view instrumenter bridge s done (action s).2 := by
  rcases run : action s with ⟨stop | _, s'⟩
  · obtain ⟨-, done, type, methodDef, rest, rfl, progress, -⟩ := ends.error run
    refine ⟨done ++ [(type, methodDef)], fun pair member => ?_, progress⟩
    rcases List.mem_append.mp member with early | last
    · exact List.mem_append_left _ early
    · rw [List.mem_singleton.mp last]
      exact List.mem_append_right _ List.mem_cons_self
  · exact ⟨pairs, List.Subset.refl _, ends.ok run⟩

/-- A filter that does not select the name of the bridge type spares it, whatever else the module has. -/
private theorem spares_of_other (serves : Serves clr view) {tickCount : UInt32} {bridgeType : mdTypeDef}
    {methods : List mdMethodDef} (adds : Adds view s (bridgeTypeDef tickCount bridgeType methods) s')
    (other : ¬Matches (bridgeTypeName tickCount) s'.config.namespaceToProfile) :
    Spares instrumenter bridge s' (bridgeTypeDef tickCount bridgeType methods) := by
  obtain ⟨_, listing, list, rfl, listed⟩ := getModuleTypes_returns (s := s') serves
  have moved := (moves_filterTypes serves s'.config.namespaceToProfile
    ((view s'.runtime).types.map TypeDef.info)).step listing
  rcases filter : FilterTypes s'.config.namespaceToProfile ((view s'.runtime).types.map TypeDef.info) listing with
    ⟨thrown | kept, filtered⟩
  · rw [filter] at moved
    have select : GetModuleTypesToInstrument s'.config.namespaceToProfile s' = (.error thrown, filtered) :=
      (bind_of_ok list).trans filter
    have run : InstrumentMethods instrumenter bridge s' = (.error thrown, filtered) :=
      (bind_of_ok rfl).trans (bind_of_error select)
    exact (spares_iff run (listed.trans moved).progress _).mpr fun _ _ _ none => nomatch none
  · rw [filter] at moved
    obtain ⟨selected, rfl, passed⟩ := filterTypes_ok filter
    have select : GetModuleTypesToInstrument s'.config.namespaceToProfile s' = (.ok _, filtered) :=
      (bind_of_ok list).trans filter
    have queried := listed.trans moved
    obtain ⟨done, subset, progress⟩ := progress_of_ends (@forM_ends clr view instrumenter bridge _ _ _ _ _
      (fun type member _ same => instrumentType_ends serves (same ▸ (passed type member).1)) _ queried.view_eq)
    have run : InstrumentMethods instrumenter bridge s' =
        (selected.forM fun type => InstrumentType instrumenter bridge type.info) filtered := by
      refine (bind_of_ok rfl).trans ((bind_of_ok select).trans ?_)
      rw [forM_map]
    apply (spares_iff run (queried.progress.trans progress) _).mpr
    intro methodDef member type pair
    obtain ⟨_, chosen, inside⟩ := List.mem_flatMap.mp (subset pair)
    obtain ⟨_, inside, same⟩ := List.mem_map.mp inside
    cases same
    obtain ⟨found, before, after, test⟩ := passed type chosen
    rw [adds.types] at found
    rcases List.mem_append.mp found with old | new
    · exact adds.methods methodDef member (List.mem_flatMap.mpr ⟨type, old, inside⟩)
    · exact bridge_filtered (List.mem_singleton.mp new) other before after test

private theorem not_spares_of_selected (serves : Serves clr view) {tickCount : UInt32}
    {bridgeType methodDef : mdTypeDef}
    {methods : List mdMethodDef} (adds : Adds view s (bridgeTypeDef tickCount bridgeType methods) s')
    (wellFormed : (view s.runtime).WellFormed) (run : InstrumentMethods instrumenter bridge s' = (.ok (), s''))
    (member : methodDef ∈ methods)
    (selected : Matches (bridgeTypeName tickCount) s'.config.namespaceToProfile) :
    ¬Spares instrumenter bridge s' (bridgeTypeDef tickCount bridgeType methods) := by
  have formed := adds.wellFormed wellFormed (bridgeTypeName_clean tickCount) rfl
    (show ¬tdNestedPublic ≤ (tdClass ||| tdAbstract ||| tdSealed) &&& tdVisibilityMask by decide)
  have progress := (@instrumentMethods_ends clr view instrumenter bridge serves s' formed).ok run
  have inside : InNamespace (view s'.runtime) s'.config.namespaceToProfile
    (bridgeTypeDef tickCount bridgeType methods) :=
    .named selected
  intro spared
  refine (spares_iff run progress _).mp spared methodDef member _ (mem_profiledMethods.mpr ⟨?_, member, inside⟩)
  rw [adds.types]
  exact List.mem_append_right _ (List.mem_singleton_self _)

/-- `InstrumentMethods` spares the methods of the bridge type that has been defined in front of
it exactly where the configured filter does not select the name of that type; a run that does not come
back may end in front of them. -/
theorem bridge_spared_iff (defines : Defines clr view) (instrumenter : ModuleInstrumenter)
    (references : ProfilerCoreReferences) (reply : Option ProfilingConfigMsg) (bridge : HookBridge)
    (s s' : HostState clr)
    (configured : s.config = IpcClient.GetProfilingConfig reply)
    (run : AddHookBridgeType instrumenter.moduleId references s = (.ok bridge, s')) :
    ∃ injectProfilerCore bridgeCtor, ∃ bridgeType ∈ (view s'.runtime).types,
      bridgeType = bridgeTypeDef (clr.answer .GetTickCount s.runtime).1 bridge.bridgeType
        [injectProfilerCore, bridgeCtor, bridge.methodEnterHookDef, bridge.methodExitHookDef] ∧
      (¬Matches bridgeType.name (IpcClient.GetProfilingConfig reply).namespaceToProfile →
        Spares instrumenter bridge s' bridgeType) ∧
      ((view s.runtime).WellFormed → ∀ s'', InstrumentMethods instrumenter bridge s' = (.ok (), s'') →
        (Spares instrumenter bridge s' bridgeType ↔
          ¬Matches bridgeType.name (IpcClient.GetProfilingConfig reply).namespaceToProfile)) := by
  obtain ⟨injectProfilerCore, bridgeCtor, adds⟩ := addHookBridgeType_ok defines run
  have same : s'.config = IpcClient.GetProfilingConfig reply := by
    obtain ⟨runtime, rfl⟩ := adds.host
    exact configured
  rw [← same]
  have spares := @spares_of_other clr view instrumenter bridge s s' defines.toServes _ _ _ adds
  refine ⟨injectProfilerCore, bridgeCtor, _, ?_, rfl, spares, fun wellFormed s'' whole =>
    ⟨fun spared selected => ?_, spares⟩⟩
  · rw [adds.types]
    exact List.mem_append_right _ (List.mem_singleton_self _)
  · exact not_spares_of_selected defines.toServes adds wellFormed whole List.mem_cons_self selected spared

end Sparing

section Empty

def emptyHost (reply : Option ProfilingConfigMsg) : HostState (tableRuntime (wide "App") 0) :=
  CorProfiler.new Tables.empty reply 8

def emptyInstrumenter : ModuleInstrumenter := ⟨1, wide "App:1", wide "App", wide "App.dll"⟩

def emptyReferences : ProfilerCoreReferences := ⟨0x01000001, 0x1A000001, 0x0A000001, 0x0A000001, 0x0A000001⟩

def emptyBridge : HookBridge := ⟨0x02000002, 0x06000003, 0x06000004⟩

/-- The host behind `AddHookBridgeType`. -/
def bridgedHost (reply : Option ProfilingConfigMsg) : HostState (tableRuntime (wide "App") 0) :=
  (AddHookBridgeType emptyInstrumenter.moduleId emptyReferences (emptyHost reply)).2

def namespaceReply : Option ProfilingConfigMsg := some ⟨true, [0x4E, 0x2E], []⟩

/-- The filter `N.` spares the bridge type. -/
theorem bridge_spared_iff_namespace :
    ∃ injectProfilerCore bridgeCtor, ∃ bridgeType ∈ (bridgedHost namespaceReply).runtime.types,
      bridgeType = bridgeTypeDef 0 emptyBridge.bridgeType
        [injectProfilerCore, bridgeCtor, emptyBridge.methodEnterHookDef, emptyBridge.methodExitHookDef] ∧
      Spares emptyInstrumenter emptyBridge (bridgedHost namespaceReply) bridgeType := by
  have run : AddHookBridgeType emptyInstrumenter.moduleId emptyReferences (emptyHost namespaceReply) =
      (.ok emptyBridge, bridgedHost namespaceReply) := run_of_result (by decide +kernel)
  have methods := run_of_result (show (InstrumentMethods emptyInstrumenter emptyBridge
    (bridgedHost namespaceReply)).1.toOption = some () by decide +kernel)
  have formed : Tables.empty.toMetadata.WellFormed :=
    ⟨List.nodup_nil, List.nodup_nil, nofun, nofun, nofun⟩
  have other : ¬Matches (bridgeTypeName 0) (IpcClient.GetProfilingConfig namespaceReply).namespaceToProfile := by
    unfold Matches
    decide +kernel
  obtain ⟨injectProfilerCore, bridgeCtor, bridgeType, listed, rfl, -, spares⟩ := bridge_spared_iff
    (tableRuntime_defines (wide "App") 0) emptyInstrumenter emptyReferences namespaceReply emptyBridge
    (emptyHost namespaceReply) (bridgedHost namespaceReply) rfl run
  exact ⟨injectProfilerCore, bridgeCtor, _, listed, rfl, (spares formed _ methods).mpr other⟩

/-- Without an answer from the server the filter is empty, and the hooks are hooked. -/
theorem unanswered_hooks_bridge :
    (AddHookBridgeType emptyInstrumenter.moduleId emptyReferences (emptyHost none)).1.toOption = some emptyBridge ∧
      .InjectEnterExitHooks emptyBridge.methodEnterHookDef emptyBridge.methodEnterHookDef
        emptyBridge.methodExitHookDef (some 3) ∈
          (InstrumentMethods emptyInstrumenter emptyBridge (bridgedHost none)).2.calls.drop
            (bridgedHost none).calls.length := by
  decide +kernel

end Empty

end ClrProfiling
