import ClrProfiling.Host.CorProfiler

/-! What holds between the states of the host in front of a callback and behind it: what the few
steps keep that the instrumenters are made of. -/

namespace ClrProfiling

open Effect Host ModuleInstrumenter

/-- The calls that neither change the body of a method nor open the metadata of a module. -/
def Call.quiet {Answer : Type} : Call Answer → Bool
  | .SetILFunctionBody .. => false
  | .GetModuleMetaData .. => false
  | _ => true

/-- The bodies the instrumenters give to the methods they define. -/
inductive Stub : List UInt8 → Prop
  | hookBridgeCtor (getAppDomain injectProfilerCore : mdMethodDef) :
      Stub (HookBridgeCtorIL getAppDomain injectProfilerCore)
  | methodHook (hook : mdMethodDef) : Stub (MethodHookIL hook)
  | actionProxy (actionField : mdFieldDef) (actionInvokeMethod : mdMethodDef) :
      Stub (MscorlibModuleInstrumenter.ActionProxyMethodIL actionField actionInvokeMethod)
  | initializeBridge (captured captureCallback resumed resumeCallback : mdFieldDef) :
      Stub (ProfilerCoreModuleInstrumenter.InitializeMscorlibBridgeMethodIL
        (ProfilerCoreModuleInstrumenter.SetCallbackIL captured captureCallback)
        (ProfilerCoreModuleInstrumenter.SetCallbackIL resumed resumeCallback))

/-- The module an instrumenter is made for. -/
def Instrumenter.moduleId : Instrumenter → ModuleID
  | .mscorlib instrumenter => instrumenter.moduleId
  | .profilerCore instrumenter => instrumenter.moduleId
  | .target instrumenter => instrumenter.moduleId

section Steps

variable {clr : Clr}

/-- A method that is defined with a body. -/
def DefineWithBody (moduleId : ModuleID) (typeDef : mdTypeDef) (name : WString) (flags : UInt32)
    (signature : List UInt8) (implFlags : UInt32) (pBody : List UInt8) : Host clr mdMethodDef := do
  let methodDef ← checked (.DefineMethod typeDef name flags signature implFlags)
  SetNewBody moduleId methodDef pBody
  pure methodDef

/-- A method that is registered, and gets hooks with its token. -/
def Profile (moduleId : ModuleID) (assemblyName typeName signature : WString)
    (methodDef onEnterHook onExitHook : mdMethodDef) : Host clr HRESULT := do
  let metadata ← Host.RegisterMethod assemblyName typeName signature
  Host.InjectEnterExitHooks moduleId methodDef onEnterHook onExitHook (some metadata.token)

/-- A relation that the calls keep which ask a runtime about a module. -/
structure Asks (clr : Clr) (moduleId : ModuleID) (related : HostState clr → HostState clr → Prop) : Prop where
  call : ∀ {Answer : Type} (request : Call Answer), request.quiet = true → Moves related (Host.call request)
  opens : Moves related (Host.call (.GetModuleMetaData moduleId))

/-- A relation that every step keeps which the instrumenters of a module take. -/
structure Steps (clr : Clr) (moduleId : ModuleID) (related : HostState clr → HostState clr → Prop) : Prop
    extends Asks clr moduleId related where
  defines : ∀ typeDef name flags signature implFlags pBody, Stub pBody →
    Moves related (DefineWithBody moduleId typeDef name flags signature implFlags pBody)
  hooks : ∀ methodDef onEnterHook onExitHook,
    Moves related (Host.InjectEnterExitHooks moduleId methodDef onEnterHook onExitHook none)
  profiles : ∀ assemblyName typeName signature methodDef onEnterHook onExitHook,
    Moves related (Profile moduleId assemblyName typeName signature methodDef onEnterHook onExitHook)

theorem comOp_moves {related : HostState clr → HostState clr → Prop} [Std.Refl related] (hr : HRESULT) :
    Moves related (ComOp hr : Host clr HRESULT) :=
  (Moves.raise _).ite (Moves.pure hr)

theorem endEnum_moves {related : HostState clr → HostState clr → Prop} [Std.Refl related]
    [IsTrans (HostState clr) related] (last : HRESULT) : Moves related (EndEnum last : Host clr Unit) :=
  (comOp_moves last).bind fun _ => (Moves.raise _).ite (Moves.pure ())

theorem fail_moves {related : HostState clr → HostState clr → Prop} [Std.Refl related] (failure : Failure) :
    Moves related (fail failure : Host clr HRESULT) := by
  cases failure with
  | E_FAIL => exact Moves.pure _
  | COR_E_INVALIDPROGRAM => exact Moves.pure _
  | invalidPointer => exact Moves.raise _
  | outOfBounds => exact Moves.raise _
  | outOfFuel => exact Moves.raise _

theorem fail_snd (failure : Failure) (s : HostState clr) : (fail failure s).2 = s :=
  ((fail_moves failure).step s : s = (fail failure s).2).symm

private theorem moves_readMethodBatches {related : HostState clr → HostState clr → Prop} [Std.Refl related]
    [IsTrans (HostState clr) related] (last : HRESULT) (batches : List (List mdMethodDef)) :
    Moves related (ReadMethodBatches last batches : Host clr _) := by
  induction batches with
  | nil => exact (endEnum_moves last).bind fun _ => Moves.pure _
  | cons batch rest ih => exact ih.bind fun _ => Moves.pure _

variable {moduleId : ModuleID} {related : HostState clr → HostState clr → Prop} [Std.Refl related]
  [IsTrans (HostState clr) related]

namespace Asks

variable (asks : Asks clr moduleId related)

include asks

theorem checked {Value : Type} (request : Call (HRESULT × Value)) (quiet : request.quiet = true) :
    Moves related (Host.checked request) :=
  (asks.call request quiet).bind fun answer => (comOp_moves answer.1).bind fun _ => Moves.pure answer.2

theorem check (request : Call HRESULT) (quiet : request.quiet = true) : Moves related (Host.check request) :=
  (asks.call request quiet).bind fun hr => (comOp_moves hr).bind fun _ => Moves.pure ()

theorem readModuleInfo : Moves related (ReadModuleInfo moduleId) :=
  (asks.checked _ rfl).bind fun _ => (asks.checked _ rfl).bind fun _ => Moves.pure _

theorem new : Moves related (ModuleInstrumenter.new moduleId) := by
  apply (asks.check _ rfl).bind
  intro _
  apply (asks.opens.bind fun hr => (comOp_moves hr).bind fun _ => Moves.pure ()).bind
  intro _
  exact (asks.check _ rfl).bind fun _ => (asks.check _ rfl).bind fun _ => asks.readModuleInfo

theorem readTypes (typeDefs : List mdTypeDef) : Moves related (ReadTypes typeDefs) := by
  induction typeDefs with
  | nil => exact Moves.pure _
  | cons typeDef rest ih =>
    exact (asks.call _ rfl).bind fun answer => (comOp_moves answer.1).bind fun _ => ih.bind fun _ => Moves.pure _

theorem readTypeBatches (last : HRESULT) (batches : List (List mdTypeDef)) :
    Moves related (ReadTypeBatches last batches) := by
  induction batches with
  | nil => exact (endEnum_moves last).bind fun _ => Moves.pure _
  | cons batch rest ih => exact (asks.readTypes batch).bind fun _ => ih.bind fun _ => Moves.pure _

theorem getModuleTypes : Moves related GetModuleTypes :=
  (asks.call _ rfl).bind fun _ => asks.readTypeBatches ..

theorem nestedWalk (namespaceFilter : WString) (fuel : Nat) (typeDef : mdTypeDef) :
    Moves related (NestedWalk namespaceFilter fuel typeDef) := by
  induction fuel generalizing typeDef with
  | zero => exact Moves.raise _
  | succ fuel ih =>
    refine (asks.call _ rfl).bind fun answer => (Moves.pure _).ite ?_
    refine (asks.call _ rfl).bind fun props => (comOp_moves props.1).bind fun hr => (Moves.pure _).ite ?_
    exact (Moves.pure _).ite ((ih answer.2).ite (Moves.pure _))

theorem isTypeInNamespace (typeName namespaceFilter : WString) (typeDef : mdTypeDef) (flags : UInt32) :
    Moves related (IsTypeInNamespace typeName namespaceFilter typeDef flags) :=
  (Moves.pure _).ite ((Moves.get.bind fun _ => asks.nestedWalk ..).ite (Moves.pure _))

theorem filterTypes (namespaceFilter : WString) (types : List TypeInfo) :
    Moves related (TargetModuleInstrumenter.FilterTypes namespaceFilter types) := by
  induction types with
  | nil => exact Moves.pure _
  | cons typeInfo rest ih => exact (asks.isTypeInNamespace ..).bind fun _ => ih.bind fun _ => Moves.pure _

theorem getTypeMethods (typeDef : mdTypeDef) : Moves related (GetTypeMethods typeDef) :=
  (asks.call _ rfl).bind fun _ => moves_readMethodBatches ..

theorem readMethodInfos (methodDefs : List mdMethodDef) : Moves related (ReadMethodInfos methodDefs) := by
  induction methodDefs with
  | nil => exact Moves.pure _
  | cons methodDef rest ih =>
    exact (asks.call _ rfl).bind fun answer => (Moves.raise _).ite (ih.bind fun _ => Moves.pure _)

theorem readMethodInfoBatches (last : HRESULT) (batches : List (List mdMethodDef)) :
    Moves related (ReadMethodInfoBatches last batches) := by
  induction batches with
  | nil => exact (endEnum_moves last).bind fun _ => Moves.pure _
  | cons batch rest ih => exact (asks.readMethodInfos batch).bind fun _ => ih.bind fun _ => Moves.pure _

theorem getMethodsByName (typeDef : mdTypeDef) (name : WString) : Moves related (GetMethodsByName typeDef name) :=
  (asks.call _ rfl).bind fun _ => asks.readMethodInfoBatches ..

theorem addProfilerCoreReferences : Moves related TargetModuleInstrumenter.AddProfilerCoreReferences := by
  refine (asks.checked _ rfl).bind fun _ => (asks.checked _ rfl).bind fun _ => (asks.checked _ rfl).bind fun _ => ?_
  refine (asks.checked _ rfl).bind fun _ => (asks.checked _ rfl).bind fun _ => (asks.checked _ rfl).bind fun _ => ?_
  refine (asks.checked _ rfl).bind fun _ => (asks.checked _ rfl).bind fun _ => (asks.checked _ rfl).bind fun _ => ?_
  exact Moves.pure _

theorem getBridgeReferences : Moves related ProfilerCoreModuleInstrumenter.GetBridgeReferences := by
  refine (asks.checked _ rfl).bind fun _ => (asks.checked _ rfl).bind fun _ => (asks.checked _ rfl).bind fun _ => ?_
  refine (asks.checked _ rfl).bind fun _ => (asks.checked _ rfl).bind fun _ => (asks.checked _ rfl).bind fun _ => ?_
  exact Moves.pure _

theorem create : Moves related (ModuleInstrumenterFactory.Create moduleId) :=
  (asks.checked _ rfl).bind fun _ => (asks.checked _ rfl).bind fun _ => asks.new.bind fun _ => Moves.pure _

theorem getModuleDescription : Moves related (CorProfiler.GetModuleDescription moduleId) :=
  (asks.checked _ rfl).bind fun _ => (asks.checked _ rfl).bind fun _ => Moves.pure _

end Asks

namespace Steps

variable (steps : Steps clr moduleId related)

include steps

omit [Std.Refl related] in
private theorem defined {Result : Type} {typeDef : mdTypeDef} {name : WString} {flags implFlags : UInt32}
    {signature pBody : List UInt8} (stub : Stub pBody) {rest : mdMethodDef → Host clr Result}
    (late : ∀ methodDef, Moves related (rest methodDef)) :
    Moves related (do
      let methodDef ← Host.checked (.DefineMethod typeDef name flags signature implFlags)
      SetNewBody moduleId methodDef pBody
      rest methodDef) := by
  have whole := (steps.defines typeDef name flags signature implFlags pBody stub).bind late
  simpa only [DefineWithBody, Effect.bind_assoc, Effect.pure_bind] using whole

section Target

open TargetModuleInstrumenter

theorem addHookBridgeType (references : ProfilerCoreReferences) :
    Moves related (AddHookBridgeType moduleId references) := by
  refine (steps.call _ rfl).bind fun _ => (steps.checked _ rfl).bind fun _ => (steps.checked _ rfl).bind fun _ => ?_
  refine (steps.check _ rfl).bind fun _ => (steps.checked _ rfl).bind fun _ => (steps.check _ rfl).bind fun _ => ?_
  apply steps.defined (.hookBridgeCtor ..)
  intro _
  apply (steps.defines _ _ _ _ _ _ (.methodHook _)).bind
  intro _
  exact (steps.defines _ _ _ _ _ _ (.methodHook _)).bind fun _ => Moves.pure _

private theorem instrumentMethod {instrumenter : ModuleInstrumenter} (same : instrumenter.moduleId = moduleId)
    (bridge : HookBridge) (type : TypeInfo) (methodDef : mdMethodDef) :
    Moves related (InstrumentMethod instrumenter bridge type methodDef) := by
  refine ((steps.checked _ rfl).bind fun _ => Moves.pure _).bind fun methodDesc => ?_
  have profiled := (steps.profiles instrumenter.moduleName type.name methodDesc methodDef bridge.methodEnterHookDef
    bridge.methodExitHookDef).bind fun _ => Moves.pure ()
  rw [Profile, Effect.bind_assoc] at profiled
  rw [same]
  exact profiled

private theorem instrumentMethods {instrumenter : ModuleInstrumenter} (same : instrumenter.moduleId = moduleId)
    (bridge : HookBridge) : Moves related (InstrumentMethods instrumenter bridge) := by
  refine Moves.get.bind fun s => (steps.getModuleTypes.bind fun _ => steps.filterTypes ..).bind fun types => ?_
  refine Moves.forM fun type => (steps.getTypeMethods _).bind fun methodDefs => Moves.forM fun methodDef => ?_
  exact steps.instrumentMethod same bridge type methodDef

theorem target {instrumenter : ModuleInstrumenter} (same : instrumenter.moduleId = moduleId) :
    Moves related (TargetModuleInstrumenter.Instrument instrumenter) := by
  apply steps.addProfilerCoreReferences.bind
  intro references
  rw [same]
  exact (steps.addHookBridgeType references).bind fun bridge => steps.instrumentMethods same bridge

end Target

section ProfilerCore

open ProfilerCoreModuleInstrumenter

theorem profilerCore {instrumenter : ModuleInstrumenter} (same : instrumenter.moduleId = moduleId) :
    Moves related (ProfilerCoreModuleInstrumenter.Instrument instrumenter) := by
  apply steps.getBridgeReferences.bind
  intro references
  rw [same]
  refine Moves.bind ?_ fun initializeMscorlibBridgeMethod => ?_
  · refine (steps.checked _ rfl).bind fun _ => (steps.checked _ rfl).bind fun _ => ?_
    exact steps.defines _ _ _ _ _ _ (.initializeBridge ..)
  · exact (steps.checked _ rfl).bind fun _ => (steps.hooks ..).bind fun _ => Moves.pure _

end ProfilerCore

section Mscorlib

open MscorlibModuleInstrumenter

private theorem defineCallback (bridgeTypeDef : mdTypeDef) (fieldName methodName : WString) :
    Moves related (DefineCallback moduleId bridgeTypeDef fieldName methodName) := by
  refine (steps.checked _ rfl).bind fun _ => (steps.checked _ rfl).bind fun _ => (steps.checked _ rfl).bind fun _ => ?_
  exact steps.defines _ _ _ _ _ _ (.actionProxy ..)

private theorem requireMethodHook (methodName : WString) (requiredParamCount : Nat) (hook : mdMethodDef)
    (message : String) : Moves related (RequireMethodHook moduleId methodName requiredParamCount hook message) := by
  refine Moves.bind ?_ fun added => (Moves.pure _).ite (Moves.raise _)
  refine (steps.checked _ rfl).bind fun _ => (steps.getMethodsByName ..).bind fun methods => ?_
  split
  · exact Moves.pure _
  · exact (steps.hooks ..).bind fun _ => Moves.pure _

theorem mscorlib {instrumenter : ModuleInstrumenter} (same : instrumenter.moduleId = moduleId) :
    Moves related (MscorlibModuleInstrumenter.Instrument instrumenter) := by
  rw [MscorlibModuleInstrumenter.Instrument, same]
  refine Moves.bind ?_ fun hooks => (steps.requireMethodHook ..).bind fun _ => steps.requireMethodHook ..
  refine (steps.checked _ rfl).bind fun _ => (steps.checked _ rfl).bind fun _ => ?_
  exact (steps.defineCallback ..).bind fun _ => (steps.defineCallback ..).bind fun _ => Moves.pure _

end Mscorlib

end Steps

theorem Steps.instrument (steps : Steps clr moduleId related) (instrumenter : Instrumenter)
    (same : instrumenter.moduleId = moduleId) : Moves related instrumenter.Instrument := by
  cases instrumenter with
  | mscorlib instrumenter => exact steps.mscorlib same
  | profilerCore instrumenter => exact steps.profilerCore same
  | target instrumenter => exact steps.target same

end Steps

section Silence

variable {clr : Clr}

/-- Nothing but the runtime has changed. -/
def Silent (s s' : HostState clr) : Prop := ∃ runtime, s' = { s with runtime }

instance : Std.Refl (@Silent clr) := ⟨fun s => ⟨s.runtime, rfl⟩⟩

instance : IsTrans (HostState clr) Silent where
  trans := by
    rintro s _ _ ⟨first, rfl⟩ ⟨second, rfl⟩
    exact ⟨second, rfl⟩

theorem silent_call {Answer : Type} (request : Call Answer) : Moves Silent (call request : Host clr Answer) :=
  ⟨fun _ => ⟨_, rfl⟩⟩

theorem silent_asks (moduleId : ModuleID) : Asks clr moduleId Silent where
  call request _ := silent_call request
  opens := silent_call _

theorem silent_setBody (moduleId : ModuleID) (methodDef : mdMethodDef) (rewriter : ILRewriter) (code : List UInt8) :
    Moves Silent (SetBody moduleId methodDef rewriter code : Host clr HRESULT) := by
  refine (silent_call _).bind fun hr => (Moves.pure _).ite ((silent_call _).bind fun allocated => ?_)
  split
  · split
    · exact fail_moves _
    · exact (silent_call _).bind fun _ => Moves.pure _
  · exact Moves.pure _

theorem silent_defineWithBody (moduleId : ModuleID) (typeDef : mdTypeDef) (name : WString) (flags : UInt32)
    (signature : List UInt8) (implFlags : UInt32) (pBody : List UInt8) :
    Moves Silent (DefineWithBody moduleId typeDef name flags signature implFlags pBody : Host clr mdMethodDef) := by
  refine ((silent_asks moduleId).checked _ rfl).bind fun methodDef => Moves.bind ?_ fun _ => Moves.pure methodDef
  refine (silent_call _).bind fun allocated => Moves.ite ?_ (Moves.raise _)
  exact (silent_call _).bind fun hr => (comOp_moves hr).bind fun _ => Moves.pure ()

theorem note_bind {Result : Type} (hostCall : HostCall) (rest : Unit → Host clr Result) (s : HostState clr) :
    (note hostCall >>= rest) s = rest () { s with calls := s.calls ++ [hostCall] } := rfl

theorem silent_injectEnterExitHooks (moduleId : ModuleID) (methodDef onEnterHook onExitHook : mdMethodDef)
    (hookArg : Option UInt64) (s : HostState clr) :
    Silent { s with calls := s.calls ++ [.InjectEnterExitHooks methodDef onEnterHook onExitHook hookArg] }
      (Host.InjectEnterExitHooks moduleId methodDef onEnterHook onExitHook hookArg s).2 := by
  rw [Host.InjectEnterExitHooks, note_bind]
  refine Moves.step ((silent_call _).bind fun answer => (Moves.pure _).ite ?_) _
  split
  · exact fail_moves _
  · exact silent_setBody ..

/-- The host behind a registration and the hooks with its token. -/
def profiled (assemblyName typeName signature : WString) (methodDef onEnterHook onExitHook : mdMethodDef)
    (s : HostState clr) : HostState clr :=
  let (metadata, metadataRegistry, sent) := s.metadataRegistry.RegisterMethod s.sent assemblyName typeName signature
  { s with
    metadataRegistry
    sent
    calls := s.calls ++ [.RegisterMethod metadata,
      .InjectEnterExitHooks methodDef onEnterHook onExitHook (some metadata.token)] }

theorem silent_profile (moduleId : ModuleID) (assemblyName typeName signature : WString)
    (methodDef onEnterHook onExitHook : mdMethodDef) (s : HostState clr) :
    Silent (profiled assemblyName typeName signature methodDef onEnterHook onExitHook s)
      (Profile moduleId assemblyName typeName signature methodDef onEnterHook onExitHook s).2 := by
  have injected := silent_injectEnterExitHooks moduleId methodDef onEnterHook onExitHook
    (some (s.metadataRegistry.tokenCounter + 1))
    (Host.RegisterMethod assemblyName typeName signature s).2
  have noted : (Host.RegisterMethod assemblyName typeName signature s).2.calls ++
      [HostCall.InjectEnterExitHooks methodDef onEnterHook onExitHook (some (s.metadataRegistry.tokenCounter + 1))] =
        (profiled assemblyName typeName signature methodDef onEnterHook onExitHook s).calls :=
    List.append_assoc ..
  rw [noted] at injected
  exact injected

end Silence

section Callbacks

variable {clr : Clr} {moduleId : ModuleID} {related : HostState clr → HostState clr → Prop} [Std.Refl related]
  [IsTrans (HostState clr) related]

/-- The factory makes an instrumenter for the module it is called for. -/
theorem create_moduleId {instrumenter : Instrumenter} {s s' : HostState clr}
    (run : ModuleInstrumenterFactory.Create moduleId s = (.ok instrumenter, s')) :
    instrumenter.moduleId = moduleId := by
  obtain ⟨info, _, -, rest⟩ := bind_eq_ok_iff.mp run
  obtain ⟨assemblyName, _, -, rest⟩ := bind_eq_ok_iff.mp rest
  obtain ⟨made, _, new, rest⟩ := bind_eq_ok_iff.mp rest
  obtain ⟨_, _, -, new⟩ := bind_eq_ok_iff.mp new
  obtain ⟨_, _, -, new⟩ := bind_eq_ok_iff.mp new
  obtain ⟨_, _, -, new⟩ := bind_eq_ok_iff.mp new
  obtain ⟨_, _, -, new⟩ := bind_eq_ok_iff.mp new
  obtain ⟨_, _, -, new⟩ := bind_eq_ok_iff.mp new
  obtain ⟨_, _, -, new⟩ := bind_eq_ok_iff.mp new
  cases new
  cases rest
  split
  · rfl
  · split <;> rfl

/-- A callback goes where its instrumenter goes. -/
theorem Asks.moduleLoadFinished (asks : Asks clr moduleId related) (hrStatus : HRESULT)
    (instrument : ∀ s instrumenter s', ModuleInstrumenterFactory.Create moduleId s = (.ok instrumenter, s') →
      related s' (instrumenter.Instrument s').2) :
    Moves related (CorProfiler.ModuleLoadFinished moduleId hrStatus) := by
  refine (Moves.pure S_OK).ite (Moves.handle (Moves.bind ?_ fun _ => Moves.pure S_OK) fun thrown => ?_)
  · exact asks.getModuleDescription.bind fun _ => asks.create.through fun s instrumenter s' run =>
      instrument s instrumenter s' run
  · cases thrown with
    | comError => exact Moves.pure S_OK
    | runtimeError message => exact Moves.raise _
    | undefined => exact Moves.raise _
    | unfinished => exact Moves.raise _

/-- The host behind the callbacks for modules, whatever comes of them. -/
def callbacks (modules : List (ModuleID × HRESULT)) (s : HostState clr) : HostState clr :=
  modules.foldl (fun s module => (CorProfiler.ModuleLoadFinished module.1 module.2 s).2) s

theorem related_callbacks
    (moves : ∀ moduleId hrStatus, Moves related (CorProfiler.ModuleLoadFinished moduleId hrStatus))
    (modules : List (ModuleID × HRESULT)) (s : HostState clr) : related s (callbacks modules s) := by
  induction modules generalizing s with
  | nil => exact Std.Refl.refl s
  | cons module rest ih => exact IsTrans.trans _ _ _ ((moves module.1 module.2).step s) (ih _)

end Callbacks

end ClrProfiling
