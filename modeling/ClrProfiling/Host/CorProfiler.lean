import ClrProfiling.Host.TargetModuleInstrumenter

/-! The instrumenters of `mscorlib` and of `ProfilerCore`, the choice of an instrumenter, and
the callback the runtime makes when a module is loaded. -/

namespace ClrProfiling

open Host ModuleInstrumenter

def fdPublic : UInt32 := 0x0006
def fdStatic : UInt32 := 0x0010

abbrev CEE_LDSFLD : Nat := 0x7E
abbrev CEE_STSFLD : Nat := 0x80

def MSCORLIB_BRIDGE_TYPE_NAME : WString := wide "MscorlibBridgeType"
def MSCORLIB_CTX_CAPTURE_DELEGATE_NAME : WString := wide "executionContextCapturedCallback"
def MSCORLIB_CTX_RESUME_DELEGATE_NAME : WString := wide "executionContextResumedCallback"

/-- The signature of a field of a class type. -/
def classFieldSig (clr : Clr) (type : mdToken) : List UInt8 :=
  [IMAGE_CEE_CS_CALLCONV_FIELD, ELEMENT_TYPE_CLASS] ++ clr.CorSigCompressToken type

namespace MscorlibModuleInstrumenter

variable {clr : Clr}

def ActionProxyMethodIL (actionField : mdFieldDef) (actionInvokeMethod : mdMethodDef) : List UInt8 :=
  tinyBody (tokenInstr CEE_LDSFLD actionField ++ tokenInstr CEE_CALLVIRT actionInvokeMethod ++ [UInt8.ofNat CEE_RET])

def voidParamlessStaticSig : List UInt8 := [IMAGE_CEE_CS_CALLCONV_DEFAULT, 0, ELEMENT_TYPE_VOID]
def voidParamlessInstanceSig : List UInt8 := [IMAGE_CEE_CS_CALLCONV_HASTHIS, 0, ELEMENT_TYPE_VOID]

def DefineCallback (moduleId : ModuleID) (bridgeTypeDef : mdTypeDef) (fieldName methodName : WString) :
    Host clr mdMethodDef := do
  let actionType ← checked (.FindTypeDefByName (wide "System.Action"))
  let fieldDef ← checked (.DefineField bridgeTypeDef fieldName (fdPublic ||| fdStatic) (classFieldSig clr actionType))
  let actionInvokeDef ← checked (.FindMethod actionType (wide "Invoke") voidParamlessInstanceSig)
  let hookDef ← checked (.DefineMethod bridgeTypeDef methodName (mdStatic ||| mdPublic ||| mdHideBySig)
    voidParamlessStaticSig (miIL ||| miManaged))
  SetNewBody moduleId hookDef (ActionProxyMethodIL fieldDef actionInvokeDef)
  pure hookDef

/-- The two hooks of the bridge type. -/
def AddMscorlibBridgeType (moduleId : ModuleID) : Host clr (mdMethodDef × mdMethodDef) := do
  let objectTypeDef ← checked (.FindTypeDefByName (wide "System.Object"))
  let bridgeTypeDef ← checked (.DefineTypeDef MSCORLIB_BRIDGE_TYPE_NAME
    (tdClass ||| tdAbstract ||| tdSealed ||| tdPublic) objectTypeDef)
  let onExecCtxCaptureHookDef ← DefineCallback moduleId bridgeTypeDef MSCORLIB_CTX_CAPTURE_DELEGATE_NAME
    (wide "OnExecutionContextCaptured")
  let onExecCtxResumeHookDef ← DefineCallback moduleId bridgeTypeDef MSCORLIB_CTX_RESUME_DELEGATE_NAME
    (wide "OnExecutionContextResumed")
  pure (onExecCtxCaptureHookDef, onExecCtxResumeHookDef)

def AddMethodHook (moduleId : ModuleID) (typeName methodName : WString) (requiredParamCount : Nat)
    (hook : mdMethodDef) : Host clr Bool := do
  let typeDef ← checked (.FindTypeDefByName typeName)
  let methods ← GetMethodsByName typeDef methodName
  match methods.find? fun methodInfo => methodInfo.parameterCount = requiredParamCount with
  | none => pure false
  | some captureMethod =>
    let hr ← Host.InjectEnterExitHooks moduleId captureMethod.id hook mdTokenNil none
    pure (hr = S_OK)

/-- A hook that has to be added. -/
def RequireMethodHook (moduleId : ModuleID) (methodName : WString) (requiredParamCount : Nat) (hook : mdMethodDef)
    (message : String) : Host clr Unit := do
  let added ← AddMethodHook moduleId (wide "System.Threading.ExecutionContext") methodName requiredParamCount hook
  if added then pure () else Effect.raise (.runtimeError message)

def InstrumentContextFlowMethods (moduleId : ModuleID) (hooks : mdMethodDef × mdMethodDef) : Host clr Unit := do
  RequireMethodHook moduleId (wide "Capture") 2 hooks.1 "Failed to find ExecutionContext.Capture method"
  RequireMethodHook moduleId (wide "RunInternal") 4 hooks.2 "Failed to find ExecutionContext.RunInternal method"

def Instrument (instrumenter : ModuleInstrumenter) : Host clr Unit := do
  let hooks ← AddMscorlibBridgeType instrumenter.moduleId
  InstrumentContextFlowMethods instrumenter.moduleId hooks

end MscorlibModuleInstrumenter

namespace ProfilerCoreModuleInstrumenter

variable {clr : Clr}

/-- What `GetBridgeReferences` leaves in the instrumenter. -/
structure BridgeReferences where
  profilingHookType : mdTypeDef
  ctxCaptureCallback : mdFieldDef
  ctxResumeCallback : mdFieldDef
deriving DecidableEq, Repr

def SetCallbackIL (valueField targetField : mdFieldDef) : List UInt8 :=
  tokenInstr CEE_LDSFLD valueField ++ tokenInstr CEE_STSFLD targetField

def InitializeMscorlibBridgeMethodIL (setCtxCaptureCallback setCtxResumeCallback : List UInt8) : List UInt8 :=
  tinyBody (setCtxCaptureCallback ++ setCtxResumeCallback ++ [UInt8.ofNat CEE_RET])

def GetBridgeReferences : Host clr BridgeReferences := do
  let profilingHookType ← checked (.FindTypeDefByName (wide "ProfilerCore.ProfilingHook"))
  let mscorlibAssemblyRef ← checked (.DefineAssemblyRef (wide "mscorlib"))
  let mscorlibBridgeType ← checked (.DefineTypeRefByName mscorlibAssemblyRef MSCORLIB_BRIDGE_TYPE_NAME)
  let actionType ← checked (.DefineTypeRefByName mscorlibAssemblyRef (wide "System.Action"))
  let ctxCaptureCallback ← checked (.DefineMemberRef mscorlibBridgeType MSCORLIB_CTX_CAPTURE_DELEGATE_NAME
    (classFieldSig clr actionType))
  let ctxResumeCallback ← checked (.DefineMemberRef mscorlibBridgeType MSCORLIB_CTX_RESUME_DELEGATE_NAME
    (classFieldSig clr actionType))
  pure { profilingHookType, ctxCaptureCallback, ctxResumeCallback }

def DefineBridgeInitializeMethod (moduleId : ModuleID) (references : BridgeReferences) : Host clr mdMethodDef := do
  let onExecCtxCaptured ← checked (.FindField references.profilingHookType (wide "onExecCtxCaptured"))
  let onExecCtxResumed ← checked (.FindField references.profilingHookType (wide "onExecCtxResumed"))
  let signature := [IMAGE_CEE_CS_CALLCONV_DEFAULT, 0, ELEMENT_TYPE_VOID]
  let initializeMscorlibBridgeMethod ← checked (.DefineMethod references.profilingHookType
    (wide "InitializeMscorlibBridge") (mdStatic ||| mdPrivate) signature (miIL ||| miManaged))
  SetNewBody moduleId initializeMscorlibBridgeMethod (InitializeMscorlibBridgeMethodIL
    (SetCallbackIL onExecCtxCaptured references.ctxCaptureCallback)
    (SetCallbackIL onExecCtxResumed references.ctxResumeCallback))
  pure initializeMscorlibBridgeMethod

def InjectCtorBridgeInitCall (moduleId : ModuleID) (profilingHookType : mdTypeDef)
    (initializeMscorlibBridgeMethod : mdMethodDef) : Host clr Unit := do
  let profilingHookCtor ← checked (.FindMethod profilingHookType (wide ".cctor") [])
  let _ ← Host.InjectEnterExitHooks moduleId profilingHookCtor mdTokenNil initializeMscorlibBridgeMethod none

def Instrument (instrumenter : ModuleInstrumenter) : Host clr Unit := do
  let references ← GetBridgeReferences
  let initializeMscorlibBridgeMethod ← DefineBridgeInitializeMethod instrumenter.moduleId references
  InjectCtorBridgeInitCall instrumenter.moduleId references.profilingHookType initializeMscorlibBridgeMethod

end ProfilerCoreModuleInstrumenter

/-- The instrumenters the factory makes. -/
inductive Instrumenter where
  | mscorlib (instrumenter : ModuleInstrumenter)
  | profilerCore (instrumenter : ModuleInstrumenter)
  | target (instrumenter : ModuleInstrumenter)
deriving DecidableEq, Repr

section CorProfiler

variable {clr : Clr}

def Instrumenter.Instrument : Instrumenter → Host clr Unit
  | .mscorlib instrumenter => MscorlibModuleInstrumenter.Instrument instrumenter
  | .profilerCore instrumenter => ProfilerCoreModuleInstrumenter.Instrument instrumenter
  | .target instrumenter => TargetModuleInstrumenter.Instrument instrumenter

namespace ModuleInstrumenterFactory

def Create (moduleId : ModuleID) : Host clr Instrumenter := do
  let info ← checked (.GetModuleInfo moduleId)
  let assemblyName ← checked (.GetAssemblyInfo info.assemblyId)
  let instrumenter ← ModuleInstrumenter.new moduleId
  pure (if cString assemblyName = wide "mscorlib" then .mscorlib instrumenter
    else if cString assemblyName = wide "ProfilerCore" then .profilerCore instrumenter
    else .target instrumenter)

end ModuleInstrumenterFactory

namespace CorProfiler

/-- Every registration becomes a request to the server. -/
def OnMethodRegistered (method : MethodMetadata) (sent : List MethodMetadataMsg) : List MethodMetadataMsg :=
  sent ++ [IpcClient.RegisterMethod method]

/-- The constructor, with what the server has answered for the configuration. -/
def new (runtime : clr.State) (reply : Option ProfilingConfigMsg) (turns : Nat) : HostState clr where
  runtime := runtime
  metadataRegistry := MetadataRegistry.new.SetMethodRegistrationCallback OnMethodRegistered
  config := IpcClient.GetProfilingConfig reply
  sent := []
  calls := []
  turns := turns

def GetModuleDescription (moduleId : ModuleID) : Host clr WString := do
  let info ← checked (.GetModuleInfo moduleId)
  let assemblyName ← checked (.GetAssemblyInfo info.assemblyId)
  pure (cString assemblyName ++ wide "/" ++ decimal moduleId.toNat ++ wide " : " ++ cString info.fileName)

/-- The body of the `try` block. -/
def InstrumentModule (moduleId : ModuleID) : Host clr Unit := do
  let _ ← GetModuleDescription moduleId
  let instrumenter ← ModuleInstrumenterFactory.Create moduleId
  instrumenter.Instrument

/-- The one `catch` clause takes `_com_error`. -/
def ModuleLoadFinished (moduleId : ModuleID) (hrStatus : HRESULT) : Host clr HRESULT :=
  if FAILED hrStatus then pure S_OK
  else Effect.handle (do InstrumentModule moduleId; pure S_OK) fun
    | .comError _ => pure S_OK
    | stop => Effect.raise stop

end CorProfiler

end CorProfiler

end ClrProfiling
