import ClrProfiling.Host.Dialogue
import ClrProfiling.Host.Metadata

/-! What escapes from `ModuleLoadFinished`, and what keeps it from coming back. -/

namespace ClrProfiling

open Effect Host ModuleInstrumenter Dialogue

/-- What the `catch` clause takes. -/
def Caught : Stop → Prop
  | .comError _ => True
  | _ => False

/-- The action comes back to the rest, or stops with what is caught. -/
def Contained {clr : Clr} {Result : Type} (action : Host clr Result) (s : HostState clr)
    (rest : Result → HostState clr → Prop) : Prop :=
  Ends action s rest fun stop _ => Caught stop

section Calls

variable {clr : Clr} {Result Value : Type} {s : HostState clr} {rest : Result → HostState clr → Prop}

private theorem contained_bind {first : Host clr Value} {second : Value → Host clr Result} :
    Contained (first >>= second) s rest ↔ Contained first s fun value s' => Contained (second value) s' rest :=
  Ends.bind_iff

private theorem contained_pure {result : Result} : Contained (pure result) s rest ↔ rest result s := Iff.rfl

private theorem contained_call {request : Call Result} :
    Contained (call request) s rest ↔ Asked request (fun answer runtime => rest answer { s with runtime }) s.runtime :=
  Iff.rfl

private theorem contained_note {hostCall : HostCall} {rest : Unit → HostState clr → Prop} :
    Contained (note hostCall) s rest ↔ rest () { s with calls := s.calls ++ [hostCall] } := Iff.rfl

private theorem contained_get {rest : HostState clr → HostState clr → Prop} :
    Contained (get : Host clr (HostState clr)) s rest ↔ rest s s := Iff.rfl

private theorem contained_registerMethod {assemblyName typeName signature : WString}
    {rest : MethodMetadata → HostState clr → Prop} :
    Contained (Host.RegisterMethod assemblyName typeName signature) s rest ↔
      rest (s.metadataRegistry.RegisterMethod s.sent assemblyName typeName signature).1 { s with
        metadataRegistry := (s.metadataRegistry.RegisterMethod s.sent assemblyName typeName signature).2.1
        sent := (s.metadataRegistry.RegisterMethod s.sent assemblyName typeName signature).2.2
        calls := s.calls ++
          [.RegisterMethod (s.metadataRegistry.RegisterMethod s.sent assemblyName typeName signature).1] } :=
  Iff.rfl

private theorem contained_comOp {hr : HRESULT} {rest : HRESULT → HostState clr → Prop} :
    Contained (ComOp hr) s rest ↔ FAILED hr ∨ rest hr s := by
  rw [ComOp]
  split
  · rename_i failed
    exact iff_of_true trivial (.inl failed)
  · rename_i success
    rw [contained_pure, or_iff_right success]

private theorem contained_checked {request : Call (HRESULT × Result)} :
    Contained (checked request) s rest ↔
      Granted request (fun value runtime => rest value { s with runtime }) s.runtime := by
  rw [checked, contained_bind, contained_call, Granted, Asked, Asked, contained_bind, contained_comOp]
  rfl

private theorem contained_check {request : Call HRESULT} {rest : Unit → HostState clr → Prop} :
    Contained (check request) s rest ↔ Accepted request (fun runtime => rest () { s with runtime }) s.runtime := by
  rw [check, contained_bind, contained_call, Accepted, Asked, Asked, contained_bind, contained_comOp]
  rfl

private theorem contained_endEnum {last : HRESULT} {rest : Unit → HostState clr → Prop} :
    Contained (EndEnum last) s rest ↔ Ended last (fun runtime => rest () { s with runtime }) s.runtime := by
  rw [EndEnum, contained_bind, contained_comOp, Ended]
  refine or_congr_right ?_
  split
  · rename_i endless
    exact iff_of_false id fun ended => ended.1 endless
  · rename_i ended
    exact (and_iff_right ended).symm

private theorem contained_setNewBody {moduleId : ModuleID} {methodDef : mdMethodDef} {pBody : List UInt8}
    {rest : Unit → HostState clr → Prop} : Contained (SetNewBody moduleId methodDef pBody) s rest ↔
      Stored moduleId methodDef pBody (fun runtime => rest () { s with runtime }) s.runtime := by
  rw [SetNewBody, contained_bind, contained_call, Stored, Asked, Asked]
  split
  · rename_i allocated
    rw [and_iff_right allocated, contained_check]
  · rename_i missing
    exact iff_of_false id fun stored => missing stored.1

private theorem contained_fail {failure : Failure} {rest : HRESULT → HostState clr → Prop} :
    Contained (fail failure) s rest ↔ Returned failure (fun hr runtime => rest hr { s with runtime }) s.runtime := by
  cases failure <;> exact Iff.rfl

private theorem contained_setBody {moduleId : ModuleID} {methodDef : mdMethodDef} {rewriter : ILRewriter}
    {code : List UInt8} {rest : HRESULT → HostState clr → Prop} :
    Contained (SetBody moduleId methodDef rewriter code) s rest ↔
      BodyWritten moduleId methodDef rewriter code (fun hr runtime => rest hr { s with runtime }) s.runtime := by
  rw [SetBody, contained_bind, contained_call, BodyWritten, Asked, Asked]
  split
  · exact Iff.rfl
  rw [contained_bind, contained_call, Asked, Asked]
  split
  · rcases rewriter.WrittenBody clr.platform code with failure | pBody
    · exact contained_fail
    · exact Iff.rfl
  · exact Iff.rfl

private theorem contained_injectEnterExitHooks {moduleId : ModuleID} {methodDef onEnterHook onExitHook : mdMethodDef}
    {hookArg : Option UInt64} {rest : HRESULT → HostState clr → Prop} :
    Contained (Host.InjectEnterExitHooks moduleId methodDef onEnterHook onExitHook hookArg) s rest ↔
      HooksInjected moduleId methodDef ⟨onEnterHook, onExitHook, hookArg⟩ (fun hr runtime => rest hr { s with
        runtime
        calls := s.calls ++ [.InjectEnterExitHooks methodDef onEnterHook onExitHook hookArg] }) s.runtime := by
  rw [Host.InjectEnterExitHooks, contained_bind, contained_note, contained_bind, contained_call, HooksInjected]
  rw [Asked, Asked]
  dsimp only
  split
  · exact Iff.rfl
  rcases Rewrite clr.platform _ _ with failure | ⟨rewriter, code⟩
  · exact contained_fail
  · exact contained_setBody

end Calls

section Metadata

variable {clr : Clr} {s : HostState clr}

private theorem contained_readTypes {typeDefs : List mdTypeDef} {rest : List TypeInfo → HostState clr → Prop} :
    Contained (ReadTypes typeDefs) s rest ↔
      TypesRead typeDefs (fun types runtime => rest types { s with runtime }) s.runtime := by
  induction typeDefs generalizing s rest with
  | nil => exact Iff.rfl
  | cons typeDef others ih =>
    simp only [ReadTypes, contained_bind, contained_call, contained_comOp, contained_pure, ih]
    rfl

private theorem typesRead_append {first others : List mdTypeDef} {rest : List TypeInfo → Dialogue clr} :
    TypesRead (first ++ others) rest =
      TypesRead first fun types => TypesRead others fun types' => rest (types ++ types') := by
  induction first generalizing rest with
  | nil => rfl
  | cons typeDef first ih =>
    simp only [List.cons_append, TypesRead, ih]
    congr! 8
    split <;> rfl

private theorem contained_readTypeBatches {last : HRESULT} {batches : List (List mdTypeDef)}
    {rest : List TypeInfo → HostState clr → Prop} :
    Contained (ReadTypeBatches last batches) s rest ↔ TypesRead batches.flatten
      (fun types => Ended last fun runtime => rest types { s with runtime }) s.runtime := by
  induction batches generalizing s rest with
  | nil =>
    simp only [ReadTypeBatches, contained_bind, contained_endEnum, contained_pure]
    rfl
  | cons batch others ih =>
    simp only [ReadTypeBatches, contained_bind, contained_readTypes, ih, contained_pure, List.flatten_cons,
      typesRead_append]

private theorem contained_getModuleTypes {rest : List TypeInfo → HostState clr → Prop} :
    Contained GetModuleTypes s rest ↔ TypesListed (fun types runtime => rest types { s with runtime }) s.runtime := by
  simp only [GetModuleTypes, contained_bind, contained_call, contained_readTypeBatches]
  rfl

private theorem contained_nestedWalk {namespaceFilter : WString} {turns : Nat} {typeDef : mdTypeDef}
    {rest : Bool → HostState clr → Prop} :
    Contained (NestedWalk namespaceFilter turns typeDef) s rest ↔
      Walked namespaceFilter turns typeDef (fun inside runtime => rest inside { s with runtime }) s.runtime := by
  induction turns generalizing typeDef s with
  | zero => exact Iff.rfl
  | succ turns ih =>
    rw [NestedWalk, contained_bind, contained_call, Walked, Asked, Asked]
    dsimp only
    split
    · exact Iff.rfl
    rw [contained_bind, contained_call, Asked, Asked, contained_bind, contained_comOp]
    apply or_congr_right'
    intro success
    rw [if_neg success]
    split
    · exact Iff.rfl
    split
    · exact ih
    · exact Iff.rfl

private theorem contained_isTypeInNamespace {type : TypeInfo} {namespaceFilter : WString}
    {rest : Bool → HostState clr → Prop} :
    Contained (IsTypeInNamespace type.name namespaceFilter type.id type.typeDefFlags) s rest ↔
      NamespaceTested s.turns namespaceFilter type
        (fun inside runtime => rest inside { s with runtime }) s.runtime := by
  rw [IsTypeInNamespace, NamespaceTested]
  split
  · exact Iff.rfl
  split
  · exact contained_nestedWalk
  · exact Iff.rfl

private theorem contained_filterTypes {namespaceFilter : WString} {types : List TypeInfo}
    {rest : List TypeInfo → HostState clr → Prop} :
    Contained (TargetModuleInstrumenter.FilterTypes namespaceFilter types) s rest ↔
      TypesFiltered s.turns namespaceFilter types (fun types runtime => rest types { s with runtime }) s.runtime := by
  induction types generalizing s rest with
  | nil => exact Iff.rfl
  | cons type others ih =>
    simp only [TargetModuleInstrumenter.FilterTypes, contained_bind, contained_isTypeInNamespace, ih, contained_pure]
    rfl

private theorem contained_readMethodBatches {last : HRESULT} {batches : List (List mdMethodDef)}
    {rest : List mdMethodDef → HostState clr → Prop} :
    Contained (ReadMethodBatches last batches) s rest ↔
      Ended last (fun runtime => rest batches.flatten { s with runtime }) s.runtime := by
  induction batches generalizing rest with
  | nil =>
    simp only [ReadMethodBatches, contained_bind, contained_endEnum, contained_pure]
    rfl
  | cons batch others ih => simp only [ReadMethodBatches, contained_bind, ih, contained_pure, List.flatten_cons]

private theorem contained_readMethodInfos {methodDefs : List mdMethodDef}
    {rest : List MethodInfo → HostState clr → Prop} :
    Contained (ReadMethodInfos methodDefs) s rest ↔
      MethodInfosRead methodDefs (fun infos runtime => rest infos { s with runtime }) s.runtime := by
  induction methodDefs generalizing s rest with
  | nil => exact Iff.rfl
  | cons methodDef others ih =>
    rw [ReadMethodInfos, contained_bind, contained_call, MethodInfosRead, Asked, Asked]
    dsimp only
    split
    · rename_i failed
      exact iff_of_false id fun read => read.1 failed
    · rename_i success
      rw [contained_bind, ih, and_iff_right success]
      rfl

private theorem methodInfosRead_append {first others : List mdMethodDef} {rest : List MethodInfo → Dialogue clr} :
    MethodInfosRead (first ++ others) rest =
      MethodInfosRead first fun infos => MethodInfosRead others fun infos' => rest (infos ++ infos') := by
  induction first generalizing rest with
  | nil => rfl
  | cons methodDef first ih => simp only [List.cons_append, MethodInfosRead, ih]

private theorem contained_readMethodInfoBatches {last : HRESULT} {batches : List (List mdMethodDef)}
    {rest : List MethodInfo → HostState clr → Prop} :
    Contained (ReadMethodInfoBatches last batches) s rest ↔ MethodInfosRead batches.flatten
      (fun infos => Ended last fun runtime => rest infos { s with runtime }) s.runtime := by
  induction batches generalizing s rest with
  | nil =>
    simp only [ReadMethodInfoBatches, contained_bind, contained_endEnum, contained_pure]
    rfl
  | cons batch others ih =>
    simp only [ReadMethodInfoBatches, contained_bind, contained_readMethodInfos, ih, contained_pure,
      List.flatten_cons, methodInfosRead_append]

end Metadata

section Mscorlib

open MscorlibModuleInstrumenter

variable {clr : Clr} {moduleId : ModuleID} {s : HostState clr}

private theorem contained_defineCallback {bridgeTypeDef : mdTypeDef} {fieldName methodName : WString}
    {rest : mdMethodDef → HostState clr → Prop} :
    Contained (DefineCallback moduleId bridgeTypeDef fieldName methodName) s rest ↔
      Callback moduleId bridgeTypeDef fieldName methodName (fun hook runtime => rest hook { s with runtime })
        s.runtime := by
  simp only [DefineCallback, contained_bind, contained_checked, contained_setNewBody, contained_pure]
  rfl

private theorem contained_getMethodsByName {typeDef : mdTypeDef} {name : WString}
    {rest : List MethodInfo → HostState clr → Prop} :
    Contained (GetMethodsByName typeDef name) s rest ↔
      MethodsFound typeDef name (fun infos runtime => rest infos { s with runtime }) s.runtime := by
  simp only [GetMethodsByName, contained_bind, contained_call, contained_readMethodInfoBatches]
  rfl

/-- What comes of a method that has to be hooked is seen from the runtime. -/
private theorem contained_requireMethodHook {methodName : WString} {requiredParamCount : Nat} {hook : mdMethodDef}
    {message : String} {rest : Unit → HostState clr → Prop} {claim : Dialogue clr}
    (seen : ∀ s', rest () s' ↔ claim s'.runtime) :
    Contained (RequireMethodHook moduleId methodName requiredParamCount hook message) s rest ↔
      OverloadHooked moduleId methodName requiredParamCount hook claim s.runtime := by
  simp only [RequireMethodHook, AddMethodHook, contained_bind, contained_checked, contained_getMethodsByName]
  refine iff_of_eq (congrFun (congrArg (Granted _) (funext fun typeDef => congrArg (MethodsFound typeDef methodName)
    (funext fun methods => funext fun runtime => propext ?_))) _)
  rcases found : methods.find? fun methodInfo => methodInfo.parameterCount = requiredParamCount with _ | method
  · refine iff_of_false ?_ ?_
    · rw [found]
      exact id
    · rintro ⟨method, present, -⟩
      cases found.symm.trans present
  · rw [found]
    simp only [Option.some.injEq, exists_eq_left']
    rw [contained_bind, contained_injectEnterExitHooks]
    refine iff_of_eq (congrFun (congrArg (HooksInjected _ _ _) (funext fun hr => funext fun runtime => propext ?_)) _)
    rw [contained_pure]
    by_cases success : hr = S_OK
    · rw [decide_eq_true success, if_pos rfl, contained_pure, seen, and_iff_right success]
    · rw [decide_eq_false success]
      exact iff_of_false id fun hooked => success hooked.1

private theorem contained_instrumentContextFlowMethods {hooks : mdMethodDef × mdMethodDef} :
    Contained (InstrumentContextFlowMethods moduleId hooks) s (fun _ _ => True) ↔
      OverloadHooked moduleId (wide "Capture") 2 hooks.1
        (OverloadHooked moduleId (wide "RunInternal") 4 hooks.2 fun _ => True) s.runtime := by
  rw [InstrumentContextFlowMethods, contained_bind]
  exact contained_requireMethodHook fun s' => contained_requireMethodHook fun _ => Iff.rfl

/-- `mscorlib` is instrumented where its overloads are there and take their hooks. -/
private theorem contained_mscorlib {instrumenter : ModuleInstrumenter} :
    Contained (MscorlibModuleInstrumenter.Instrument instrumenter) s (fun _ _ => True) ↔
      MscorlibInstrumented instrumenter.moduleId s.runtime := by
  simp only [MscorlibModuleInstrumenter.Instrument, AddMscorlibBridgeType, contained_bind, contained_checked,
    contained_defineCallback, contained_pure, contained_instrumentContextFlowMethods]
  rfl

end Mscorlib

section ProfilerCore

open ProfilerCoreModuleInstrumenter

variable {clr : Clr} {s : HostState clr}

private theorem contained_profilerCore {instrumenter : ModuleInstrumenter} :
    Contained (ProfilerCoreModuleInstrumenter.Instrument instrumenter) s (fun _ _ => True) ↔
      ProfilerCoreInstrumented instrumenter.moduleId s.runtime := by
  simp only [ProfilerCoreModuleInstrumenter.Instrument, GetBridgeReferences, DefineBridgeInitializeMethod,
    InjectCtorBridgeInitCall, contained_bind, contained_checked, contained_setNewBody, contained_injectEnterExitHooks,
    contained_pure]
  rfl

end ProfilerCore

section Target

open TargetModuleInstrumenter

variable {clr : Clr} {s : HostState clr}

private theorem contained_addProfilerCoreReferences {rest : ProfilerCoreReferences → HostState clr → Prop} :
    Contained AddProfilerCoreReferences s rest ↔
      CoreReferenced (fun references runtime => rest references { s with runtime }) s.runtime := by
  simp only [AddProfilerCoreReferences, contained_bind, contained_checked, contained_pure]
  rfl

private theorem contained_addHookMethod {moduleId : ModuleID} {bridgeType : mdTypeDef} {name : WString}
    {hookRef : mdMethodDef} {rest : mdMethodDef → HostState clr → Prop} :
    Contained (AddHookMethod moduleId bridgeType name hookRef) s rest ↔
      HookDefined moduleId bridgeType name hookRef (fun hook runtime => rest hook { s with runtime }) s.runtime := by
  simp only [AddHookMethod, contained_bind, contained_checked, contained_setNewBody, contained_pure]
  rfl

private theorem contained_addHookBridgeType {moduleId : ModuleID} {references : ProfilerCoreReferences}
    {rest : HookBridge → HostState clr → Prop} :
    Contained (AddHookBridgeType moduleId references) s rest ↔
      Bridged moduleId references (fun bridge runtime => rest bridge { s with runtime }) s.runtime := by
  simp only [AddHookBridgeType, contained_bind, contained_call, contained_checked, contained_check,
    contained_setNewBody, contained_addHookMethod, contained_pure]
  rfl

variable {instrumenter : ModuleInstrumenter} {bridge : HookBridge} {rest : Unit → HostState clr → Prop}

private theorem contained_instrumentMethod {type : TypeInfo} {methodDef : mdMethodDef} (claim : UInt64 → Dialogue clr)
    (seen : ∀ s', rest () s' ↔ claim s'.metadataRegistry.tokenCounter s'.runtime) :
    Contained (InstrumentMethod instrumenter bridge type methodDef) s rest ↔
      Granted (.GetMethodProps methodDef 256) (fun _ => HooksInjected instrumenter.moduleId methodDef
        ⟨bridge.methodEnterHookDef, bridge.methodExitHookDef, some (s.metadataRegistry.tokenCounter + 1)⟩
        fun _ => claim (s.metadataRegistry.tokenCounter + 1)) s.runtime := by
  simp only [InstrumentMethod, GetMethodDescription, contained_bind, contained_checked, contained_pure,
    contained_registerMethod, contained_injectEnterExitHooks, seen, MetadataRegistry.RegisterMethod_token,
    MetadataRegistry.RegisterMethod_counter]

private theorem contained_instrumentMethods {type : TypeInfo} {methodDefs : List mdMethodDef}
    (claim : UInt64 → Dialogue clr) (seen : ∀ s', rest () s' ↔ claim s'.metadataRegistry.tokenCounter s'.runtime) :
    Contained (methodDefs.forM (InstrumentMethod instrumenter bridge type)) s rest ↔
      MethodsInstrumented instrumenter.moduleId bridge methodDefs s.metadataRegistry.tokenCounter claim s.runtime := by
  induction methodDefs generalizing s with
  | nil => exact seen s
  | cons methodDef others ih =>
    change Contained (_ >>= _) s rest ↔ _
    rw [contained_bind]
    exact contained_instrumentMethod (fun tokenCounter =>
      MethodsInstrumented instrumenter.moduleId bridge others tokenCounter claim) fun s' => ih

private theorem contained_instrumentTypes {types : List TypeInfo} :
    Contained (types.forM (InstrumentType instrumenter bridge)) s (fun _ _ => True) ↔
      TypesInstrumented instrumenter.moduleId bridge types s.metadataRegistry.tokenCounter s.runtime := by
  induction types generalizing s with
  | nil => exact Iff.rfl
  | cons type others ih =>
    change Contained (_ >>= _) s _ ↔ _
    simp only [InstrumentType, GetTypeMethods, contained_bind, contained_call, contained_readMethodBatches]
    exact iff_of_eq (congrFun (congrArg (Asked _) (funext fun enumeration => congrArg (Ended _) (funext fun runtime =>
      propext (contained_instrumentMethods (TypesInstrumented instrumenter.moduleId bridge others) fun s' => ih)))) _)

private theorem contained_target :
    Contained (TargetModuleInstrumenter.Instrument instrumenter) s (fun _ _ => True) ↔
      TargetInstrumented s.turns s.config.namespaceToProfile s.metadataRegistry.tokenCounter instrumenter.moduleId
        s.runtime := by
  simp only [TargetModuleInstrumenter.Instrument, InstrumentMethods, GetModuleTypesToInstrument, contained_bind,
    contained_get, contained_addProfilerCoreReferences, contained_addHookBridgeType, contained_getModuleTypes,
    contained_filterTypes, contained_instrumentTypes]
  rfl

end Target

section Callback

variable {clr : Clr} {moduleId : ModuleID} {s : HostState clr}

private theorem contained_instrument {assemblyName : WString} {instrumenter : ModuleInstrumenter} :
    Contained (Instrumenter.Instrument (if assemblyName = wide "mscorlib" then .mscorlib instrumenter
        else if assemblyName = wide "ProfilerCore" then .profilerCore instrumenter else .target instrumenter)) s
      (fun _ _ => True) ↔
      (if assemblyName = wide "mscorlib" then MscorlibInstrumented instrumenter.moduleId
        else if assemblyName = wide "ProfilerCore" then ProfilerCoreInstrumented instrumenter.moduleId
        else TargetInstrumented s.turns s.config.namespaceToProfile s.metadataRegistry.tokenCounter
          instrumenter.moduleId) s.runtime := by
  split
  · exact contained_mscorlib
  split
  · exact contained_profilerCore
  · exact contained_target

private theorem contained_instrumentModule : Contained (CorProfiler.InstrumentModule moduleId) s (fun _ _ => True) ↔
    Instrumented s.turns s.config.namespaceToProfile s.metadataRegistry.tokenCounter moduleId s.runtime := by
  simp only [CorProfiler.InstrumentModule, CorProfiler.GetModuleDescription, ModuleInstrumenterFactory.Create,
    ModuleInstrumenter.new, ReadModuleInfo, contained_bind, contained_checked, contained_check, contained_pure,
    contained_instrument]
  rfl

private theorem moduleLoadFinished_returns_iff {hrStatus : HRESULT} :
    (∃ s', CorProfiler.ModuleLoadFinished moduleId hrStatus s = (.ok S_OK, s')) ↔
      FAILED hrStatus ∨ Contained (CorProfiler.InstrumentModule moduleId) s fun _ _ => True := by
  rw [CorProfiler.ModuleLoadFinished]
  by_cases failed : FAILED hrStatus
  · rw [if_pos failed]
    exact iff_of_true ⟨s, rfl⟩ (.inl failed)
  · rw [if_neg failed, or_iff_right failed, Contained, Ends]
    rcases run : (CorProfiler.InstrumentModule moduleId : Host clr Unit) s with ⟨stop | _, s'⟩
    · rw [handle, bind_of_error run]
      cases stop with
      | comError hr => exact iff_of_true ⟨s', rfl⟩ trivial
      | _ =>
        refine iff_of_false ?_ id
        intro returned
        obtain ⟨_, returned⟩ := returned
        cases returned
    · rw [handle, bind_of_ok run]
      exact iff_of_true ⟨s', rfl⟩ trivial

/-- A host in front of an `mscorlib` without the expected overloads. -/
def bareMscorlib : HostState (tableRuntime (wide "mscorlib") 0) := CorProfiler.new Tables.empty none 8

end Callback

end ClrProfiling
