import ClrProfiling.Host.Delivery

/-! What loading a module comes to: the methods of the namespace that is profiled run between hooks
with tokens of their own, and every other method is as it was. -/

namespace ClrProfiling

open Effect Host ModuleInstrumenter TargetModuleInstrumenter Machine

section Calls

variable {moduleName : WString} {bridge : HookBridge} {description : mdMethodDef → WString} {methodDef : mdMethodDef}

theorem hooksOf_methodCalls_of_notMem (tokenCounter : UInt64) {pairs : List (TypeDef × mdMethodDef)}
    (absent : methodDef ∉ pairs.map Prod.snd) :
    hooksOf methodDef (methodCalls moduleName bridge description tokenCounter pairs) = [] := by
  induction pairs generalizing tokenCounter with
  | nil => rfl
  | cons pair rest ih =>
    rw [List.map_cons, List.mem_cons, not_or] at absent
    obtain ⟨other, later⟩ := absent
    rw [methodCalls, hooksOf_register, hooksOf_inject, if_neg (Ne.symm other)]
    exact ih (tokenCounter + 1) later

theorem hooksOf_methodCalls (tokenCounter : UInt64) {before after : List (TypeDef × mdMethodDef)} {type : TypeDef}
    (distinct : ((before ++ (type, methodDef) :: after).map Prod.snd).Nodup) :
    hooksOf methodDef (methodCalls moduleName bridge description tokenCounter (before ++ (type, methodDef) :: after)) =
      [⟨bridge.methodEnterHookDef, bridge.methodExitHookDef,
        some (tokenCounter + UInt64.ofNat before.length + 1)⟩] := by
  rw [List.map_append, List.map_cons] at distinct
  obtain ⟨-, others, apart⟩ := List.nodup_append.mp distinct
  have early : methodDef ∉ before.map Prod.snd := fun member => apart _ member _ List.mem_cons_self rfl
  have late : methodDef ∉ after.map Prod.snd := (List.nodup_cons.mp others).1
  rw [methodCalls_append, hooksOf_append, hooksOf_methodCalls_of_notMem tokenCounter early, List.nil_append]
  rw [methodCalls, hooksOf_register, hooksOf_inject, if_pos rfl, hooksOf_methodCalls_of_notMem _ late]

theorem registration_mem_methodCalls (tokenCounter : UInt64) (before after : List (TypeDef × mdMethodDef))
    (type : TypeDef) :
    .RegisterMethod ⟨tokenCounter + UInt64.ofNat before.length + 1, moduleName, cString type.name,
        cString (description methodDef)⟩ ∈
      methodCalls moduleName bridge description tokenCounter (before ++ (type, methodDef) :: after) := by
  rw [methodCalls_append, methodCalls]
  exact List.mem_append_right _ List.mem_cons_self

end Calls

section Namespace

variable {clr : Clr} {view : clr.State → Metadata} {s s' : HostState clr} {type added : TypeDef}
  {namespaceFilter : WString}

/-- A new class does not move the old ones into the namespace, nor out of it. -/
theorem Adds.inNamespace_iff (adds : Adds view s added s') (wellFormed : (view s.runtime).WellFormed)
    (member : type ∈ (view s.runtime).types) :
    InNamespace (view s'.runtime) namespaceFilter type ↔ InNamespace (view s.runtime) namespaceFilter type := by
  constructor
  · intro inside
    induction inside with
    | named selected => exact .named selected
    | nested listed enclosing inside ih =>
      rw [adds.types] at listed
      rcases List.mem_append.mp listed with old | new
      · exact .nested old enclosing (ih old)
      · obtain ⟨outer, known, same⟩ := wellFormed.enclosing _ member _ enclosing
        rw [List.mem_singleton.mp new] at same
        exact absurd (List.mem_map.mpr ⟨outer, known, same⟩) adds.token
  · intro inside
    induction inside with
    | named selected => exact .named selected
    | nested listed enclosing inside ih =>
      refine .nested ?_ enclosing (ih listed)
      rw [adds.types]
      exact List.mem_append_left _ listed

end Namespace

section Instrumentation

variable {clr : Clr} {view : clr.State → Metadata}
  {bodies : clr.State → ModuleID → mdMethodDef → Option MethodBody} {opened : clr.State → ModuleID}
  {instrumenter : ModuleInstrumenter} {s s' : HostState clr}

private theorem queried_addProfilerCoreReferences (serves : Serves clr view) :
    Moves (Queried view) (AddProfilerCoreReferences : Host clr ProfilerCoreReferences) := by
  have asks {Value : Type} (request : Call (HRESULT × Value)) (query : request.adds = false) :
      Moves (Queried view) (checked request : Host clr Value) := by
    apply Moves.bind ⟨fun s => ⟨_, rfl, serves.keeps request s.runtime query⟩⟩
    intro answer
    exact (comOp_moves answer.1).bind fun _ => Moves.pure answer.2
  refine (asks _ rfl).bind fun _ => (asks _ rfl).bind fun _ => (asks _ rfl).bind fun _ => ?_
  refine (asks _ rfl).bind fun _ => (asks _ rfl).bind fun _ => (asks _ rfl).bind fun _ => ?_
  refine (asks _ rfl).bind fun _ => (asks _ rfl).bind fun _ => (asks _ rfl).bind fun _ => ?_
  exact Moves.pure _

private theorem type_unique {metadata : Metadata} (wellFormed : metadata.WellFormed) {type other : TypeDef}
    {methodDef : mdMethodDef} (member : type ∈ metadata.types) (member' : other ∈ metadata.types)
    (inside : methodDef ∈ type.methods) (inside' : methodDef ∈ other.methods) : type = other := by
  have symmetric : Std.Symm (Function.onFun List.Disjoint TypeDef.methods) :=
    ⟨fun _ _ apart => List.Disjoint.symm apart⟩
  by_contra apart
  exact (List.nodup_flatMap.mp wellFormed.methods).2.forall member member' apart inside inside'

/-- The calls of an instrumenter that comes back are those for the methods of the namespace. -/
private theorem instrument_calls (defines : Defines clr view) (wellFormed : (view s.runtime).WellFormed)
    (run : TargetModuleInstrumenter.Instrument instrumenter s = (.ok (), s')) :
    ∃ bridge pairs, s'.calls = s.calls ++ methodCalls instrumenter.moduleName bridge (view s'.runtime).description
        s.metadataRegistry.tokenCounter pairs ∧ (pairs.map Prod.snd).Nodup ∧
      ∀ type ∈ (view s.runtime).types, ∀ methodDef ∈ type.methods,
        (InNamespace (view s.runtime) s.config.namespaceToProfile type → (type, methodDef) ∈ pairs) ∧
          (¬InNamespace (view s.runtime) s.config.namespaceToProfile type → methodDef ∉ pairs.map Prod.snd) := by
  obtain ⟨references, s₁, referred, rest⟩ := bind_eq_ok_iff.mp run
  obtain ⟨bridge, s₂, bridged, methods⟩ := bind_eq_ok_iff.mp rest
  have queried := (queried_addProfilerCoreReferences defines.toServes).step s
  rw [referred] at queried
  have tables := queried.view_eq
  rw [← tables] at wellFormed ⊢
  obtain ⟨injectProfilerCore, bridgeCtor, adds⟩ := addHookBridgeType_ok defines bridged
  have host : s₂.config = s.config ∧ s₂.calls = s.calls ∧ s₂.metadataRegistry = s.metadataRegistry := by
    obtain ⟨_, rfl, -⟩ := queried
    obtain ⟨_, rfl⟩ := adds.host
    exact ⟨rfl, rfl, rfl⟩
  have formed := adds.wellFormed wellFormed (bridgeTypeName_clean _) rfl
    (show ¬tdNestedPublic ≤ (tdClass ||| tdAbstract ||| tdSealed) &&& tdVisibilityMask by decide)
  have progress := (instrumentMethods_ends defines.toServes formed).ok methods
  rw [host.1] at progress
  have calls := progress.calls
  rw [host.2.1, host.2.2, ← progress.tables] at calls
  refine ⟨bridge, _, calls, ?_, fun type member methodDef inside => ⟨fun named => ?_, ?_⟩⟩
  · rw [progress.tables]
    exact nodup_profiledMethods formed _
  · rw [progress.tables]
    refine mem_profiledMethods.mpr ⟨?_, inside, (adds.inNamespace_iff wellFormed member).mpr named⟩
    rw [adds.types]
    exact List.mem_append_left _ member
  · rw [progress.tables]
    intro outside listed
    obtain ⟨⟨other, _⟩, pair, rfl⟩ := List.mem_map.mp listed
    obtain ⟨known, inside', named⟩ := mem_profiledMethods.mp pair
    rw [adds.types] at known
    rcases List.mem_append.mp known with old | new
    · obtain rfl := type_unique wellFormed member old inside inside'
      exact outside ((adds.inNamespace_iff wellFormed member).mp named)
    · rw [List.mem_singleton.mp new] at inside'
      exact adds.methods _ inside' (List.mem_flatMap.mpr ⟨type, member, inside⟩)

end Instrumentation

section Witness

theorem imageRuntime_defines (assemblyName : WString) (tickCount : UInt32) :
    Defines (imageRuntime assemblyName tickCount) fun image => image.tables.toMetadata where
  typeDefs image := (tableRuntime_defines assemblyName tickCount).typeDefs image.tables
  typeDefsEnd image := (tableRuntime_defines assemblyName tickCount).typeDefsEnd image.tables
  methodDefs image := (tableRuntime_defines assemblyName tickCount).methodDefs image.tables
  methodDefsEnd image := (tableRuntime_defines assemblyName tickCount).methodDefsEnd image.tables
  typeProps image := (tableRuntime_defines assemblyName tickCount).typeProps image.tables
  nested image := (tableRuntime_defines assemblyName tickCount).nested image.tables
  topLevel image := (tableRuntime_defines assemblyName tickCount).topLevel image.tables
  methodProps image := (tableRuntime_defines assemblyName tickCount).methodProps image.tables
  keeps request image same := by
    cases request with
    | DefineTypeDef => cases same
    | DefineMethod => cases same
    | _ => rfl
  typeDef name flags base image := (tableRuntime_defines assemblyName tickCount).typeDef name flags base image.tables
  method typeDef name flags signature implFlags image defined := by
    dsimp only [imageRuntime] at defined ⊢
    split
    · rename_i fresh
      rw [if_pos fresh] at defined
      exact (tableRuntime_defines assemblyName tickCount).method typeDef name flags signature implFlags
        image.tables defined
    · rename_i known
      rw [if_neg known] at defined
      exact absurd (show FAILED E_OUTOFMEMORY by decide) defined

/-- The image of a module with a class in the namespace, one nested in it and one beside it. -/
def nestedImage : Image where
  tables := nestedTables
  module := 1
  bodies moduleId methodDef := if moduleId = 1 ∧ methodDef ∈ nestedTables.methods then some leftTry else none

def nestedImageHost : HostState (imageRuntime (wide "App") 0) :=
  CorProfiler.new nestedImage (some ⟨true, [0x4E, 0x2E], []⟩) 8

def appInstrumenter : ModuleInstrumenter := ⟨1, wide "App:1", wide "App", wide "App.dll"⟩

/-- The host behind the instrumenter. -/
def nestedImageBehind : HostState (imageRuntime (wide "App") 0) :=
  (TargetModuleInstrumenter.Instrument appInstrumenter nestedImageHost).2

private theorem nestedImageHost_run :
    TargetModuleInstrumenter.Instrument appInstrumenter nestedImageHost = (.ok (), nestedImageBehind) := by
  have outcome : (TargetModuleInstrumenter.Instrument appInstrumenter nestedImageHost).1.toOption = some () := by
    decide +kernel
  exact run_of_result outcome

private theorem nestedImage_wellFormed : nestedTables.toMetadata.WellFormed where
  tokens := nestedTables.tokens
  methods := by decide +kernel
  names := by decide +kernel
  enclosing := by simp [nestedTables]
  visibility := by
    simp only [nestedTables, List.forall_mem_cons]
    decide +kernel

private theorem nestedImage_sound : AllSound (imageRuntime (wide "App") 0) Image.bodies nestedImageHost.runtime := by
  intro moduleId methodDef body found
  change (if moduleId = 1 ∧ methodDef ∈ nestedTables.methods then some leftTry else none) = some body at found
  split at found
  · obtain rfl := Option.some.inj found
    exact ⟨by decide, leftTryInstrs, leftTry_valid, leftTry_code, leftTry_wellFormed⟩
  · cases found

private theorem nestedImage_body (methodDef : mdMethodDef) (member : methodDef ∈ nestedTables.methods) :
    nestedImageHost.runtime.bodies 1 methodDef = some leftTry := by
  change (if (1 : ModuleID) = 1 ∧ methodDef ∈ nestedTables.methods then some leftTry else none) = some leftTry
  exact if_pos ⟨rfl, member⟩

end Witness

end ClrProfiling
