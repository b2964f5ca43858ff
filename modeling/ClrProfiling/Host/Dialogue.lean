import ClrProfiling.Host.CorProfiler

/-! The answers with which a runtime has a module instrumented to its end, or refuses it by a
failure: call after call, what the runtime has to say. -/

namespace ClrProfiling

open Host ModuleInstrumenter

/-- What a runtime is asked, from a state of it on. -/
abbrev Dialogue (clr : Clr) : Type := clr.State → Prop

namespace Dialogue

variable {clr : Clr}

section Requests

def Asked {Answer : Type} (request : Call Answer) (rest : Answer → Dialogue clr) : Dialogue clr := fun runtime =>
  rest (clr.answer request runtime).1 (clr.answer request runtime).2

/-- A failure is an answer too, behind which nothing is asked. -/
def Granted {Value : Type} (request : Call (HRESULT × Value)) (rest : Value → Dialogue clr) : Dialogue clr :=
  Asked request fun answer runtime => FAILED answer.1 ∨ rest answer.2 runtime

def Accepted (request : Call HRESULT) (rest : Dialogue clr) : Dialogue clr :=
  Asked request fun hr runtime => FAILED hr ∨ rest runtime

/-- The enumerator has an end. -/
def Ended (last : HRESULT) (rest : Dialogue clr) : Dialogue clr := fun runtime =>
  FAILED last ∨ last ≠ S_OK ∧ rest runtime

/-- There is memory for a new body. -/
def Stored (moduleId : ModuleID) (methodDef : mdMethodDef) (pBody : List UInt8) (rest : Dialogue clr) : Dialogue clr :=
  Asked (.Alloc pBody.length) fun allocated runtime =>
    allocated = true ∧ Accepted (.SetILFunctionBody moduleId methodDef pBody) rest runtime

end Requests

section Rewriting

/-- A failure of the rewriter is an HRESULT. -/
def Returned : Failure → (HRESULT → Dialogue clr) → Dialogue clr
  | .E_FAIL, rest => rest ClrProfiling.E_FAIL
  | .COR_E_INVALIDPROGRAM, rest => rest ClrProfiling.COR_E_INVALIDPROGRAM
  | _, _ => fun _ => False

/-- Nothing stands in the way of writing the new body, or an HRESULT says what does. -/
def BodyWritten (moduleId : ModuleID) (methodDef : mdMethodDef) (rewriter : ILRewriter) (code : List UInt8)
    (rest : HRESULT → Dialogue clr) : Dialogue clr :=
  Asked (.GetILFunctionBodyAllocator moduleId) fun hr runtime =>
    if FAILED hr then rest E_OUTOFMEMORY runtime
    else Asked (.Alloc (totalBodySize code.length rewriter.m_pEH.length)) (fun allocated runtime =>
      if allocated then
        match rewriter.WrittenBody clr.platform code with
        | .error failure => Returned failure rest runtime
        | .ok pBody =>
          Asked (.SetILFunctionBody moduleId methodDef (pBody.read 0 pBody.size))
            (fun hr => rest (if FAILED hr then hr else S_OK)) runtime
      else rest E_OUTOFMEMORY runtime) runtime

/-- The body the runtime hands out does not break the rewriter. -/
def HooksInjected (moduleId : ModuleID) (methodDef : mdMethodDef) (hooks : Hooks) (rest : HRESULT → Dialogue clr) :
    Dialogue clr :=
  Asked (.GetILFunctionBody moduleId methodDef) fun answer runtime =>
    if FAILED answer.1 then rest answer.1 runtime
    else
      match Rewrite clr.platform answer.2 hooks with
      | .error failure => Returned failure rest runtime
      | .ok (rewriter, code) => BodyWritten moduleId methodDef rewriter code rest runtime

end Rewriting

section Factory

def Described (moduleId : ModuleID) (rest : WString → Dialogue clr) : Dialogue clr :=
  Granted (.GetModuleInfo moduleId) fun info => Granted (.GetAssemblyInfo info.assemblyId) fun assemblyName =>
    rest (cString assemblyName)

/-- The interfaces of the module. -/
def Opened (moduleId : ModuleID) (rest : Dialogue clr) : Dialogue clr :=
  Accepted (.GetILFunctionBodyAllocator moduleId) <| Accepted (.GetModuleMetaData moduleId) <|
    Accepted (.QueryInterface .IID_IMetaDataAssemblyEmit) <| Accepted (.QueryInterface .IID_IMetaDataImport2) rest

end Factory

section Mscorlib

def Callback (moduleId : ModuleID) (bridgeTypeDef : mdTypeDef) (fieldName methodName : WString)
    (rest : mdMethodDef → Dialogue clr) : Dialogue clr :=
  Granted (.FindTypeDefByName (wide "System.Action")) fun actionType =>
    Granted (.DefineField bridgeTypeDef fieldName (fdPublic ||| fdStatic)
      (classFieldSig clr actionType)) fun fieldDef =>
    Granted (.FindMethod actionType (wide "Invoke")
      MscorlibModuleInstrumenter.voidParamlessInstanceSig) fun invokeDef =>
    Granted (.DefineMethod bridgeTypeDef methodName (mdStatic ||| mdPublic ||| mdHideBySig)
      MscorlibModuleInstrumenter.voidParamlessStaticSig (miIL ||| miManaged)) fun hookDef =>
    Stored moduleId hookDef (MscorlibModuleInstrumenter.ActionProxyMethodIL fieldDef invokeDef) (rest hookDef)

/-- The properties of the methods can be read. -/
def MethodInfosRead : List mdMethodDef → (List MethodInfo → Dialogue clr) → Dialogue clr
  | [], rest => rest []
  | methodDef :: others, rest => Asked (.GetMethodProps methodDef 1024) fun answer runtime =>
      ¬FAILED answer.1 ∧ MethodInfosRead others (fun infos => rest
        (⟨methodDef, cString answer.2.name, GetParameterCountFromMethodSig clr answer.2.sigBlob⟩ :: infos)) runtime

def MethodsFound (typeDef : mdTypeDef) (name : WString) (rest : List MethodInfo → Dialogue clr) : Dialogue clr :=
  Asked (.EnumMethodsWithName typeDef name 64) fun enumeration =>
    MethodInfosRead enumeration.batches.flatten fun infos => Ended enumeration.last (rest infos)

/-- The overload is there, and comes back with S_OK. -/
def OverloadHooked (moduleId : ModuleID) (methodName : WString) (requiredParamCount : Nat) (hook : mdMethodDef)
    (rest : Dialogue clr) : Dialogue clr :=
  Granted (.FindTypeDefByName (wide "System.Threading.ExecutionContext")) fun typeDef =>
    MethodsFound typeDef methodName fun methods runtime =>
      ∃ method, (methods.find? fun methodInfo => methodInfo.parameterCount = requiredParamCount) = some method ∧
        HooksInjected moduleId method.id ⟨hook, mdTokenNil, none⟩ (fun hr runtime => hr = S_OK ∧ rest runtime) runtime

def MscorlibInstrumented (moduleId : ModuleID) : Dialogue clr :=
  Granted (.FindTypeDefByName (wide "System.Object")) fun objectTypeDef =>
    Granted (.DefineTypeDef MSCORLIB_BRIDGE_TYPE_NAME (tdClass ||| tdAbstract ||| tdSealed ||| tdPublic) objectTypeDef)
      fun bridgeTypeDef =>
    Callback moduleId bridgeTypeDef MSCORLIB_CTX_CAPTURE_DELEGATE_NAME (wide "OnExecutionContextCaptured")
      fun captureHookDef =>
    Callback moduleId bridgeTypeDef MSCORLIB_CTX_RESUME_DELEGATE_NAME (wide "OnExecutionContextResumed")
      fun resumeHookDef =>
    OverloadHooked moduleId (wide "Capture") 2 captureHookDef <|
    OverloadHooked moduleId (wide "RunInternal") 4 resumeHookDef fun _ => True

end Mscorlib

section ProfilerCore

open ProfilerCoreModuleInstrumenter

def ProfilerCoreInstrumented (moduleId : ModuleID) : Dialogue clr :=
  Granted (.FindTypeDefByName (wide "ProfilerCore.ProfilingHook")) fun hookType =>
    Granted (.DefineAssemblyRef (wide "mscorlib")) fun mscorlibAssemblyRef =>
    Granted (.DefineTypeRefByName mscorlibAssemblyRef MSCORLIB_BRIDGE_TYPE_NAME) fun bridgeType =>
    Granted (.DefineTypeRefByName mscorlibAssemblyRef (wide "System.Action")) fun actionType =>
    Granted (.DefineMemberRef bridgeType MSCORLIB_CTX_CAPTURE_DELEGATE_NAME
      (classFieldSig clr actionType)) fun capture =>
    Granted (.DefineMemberRef bridgeType MSCORLIB_CTX_RESUME_DELEGATE_NAME (classFieldSig clr actionType)) fun resume =>
    Granted (.FindField hookType (wide "onExecCtxCaptured")) fun captured =>
    Granted (.FindField hookType (wide "onExecCtxResumed")) fun resumed =>
    Granted (.DefineMethod hookType (wide "InitializeMscorlibBridge") (mdStatic ||| mdPrivate)
      [IMAGE_CEE_CS_CALLCONV_DEFAULT, 0, ELEMENT_TYPE_VOID] (miIL ||| miManaged)) fun initMethod =>
    Stored moduleId initMethod
      (InitializeMscorlibBridgeMethodIL (SetCallbackIL captured capture) (SetCallbackIL resumed resume)) <|
    Granted (.FindMethod hookType (wide ".cctor") []) fun ctor =>
    HooksInjected moduleId ctor ⟨mdTokenNil, initMethod, none⟩ fun _ _ => True

end ProfilerCore

section Target

open TargetModuleInstrumenter

def CoreReferenced (rest : ProfilerCoreReferences → Dialogue clr) : Dialogue clr :=
  Granted (.DefineAssemblyRef (wide "mscorlib")) fun mscorlibAssemblyRef =>
    Granted (.DefineAssemblyRef (wide "ProfilerCore")) fun coreAssemblyRef =>
    Granted (.DefineModuleRef (wide "ProfilerHost")) fun hostModuleRef =>
    Granted (.DefineTypeRefByName mscorlibAssemblyRef (wide "System.Object")) fun object =>
    Granted (.DefineTypeRefByName mscorlibAssemblyRef (wide "System.AppDomain")) fun appDomain =>
    Granted (.DefineTypeRefByName coreAssemblyRef (wide "ProfilerCore.ProfilingHook")) fun hookType =>
    Granted (.DefineMemberRef appDomain (wide "get_CurrentDomain")
      ([IMAGE_CEE_CS_CALLCONV_DEFAULT, 0, ELEMENT_TYPE_CLASS] ++ clr.CorSigCompressToken appDomain)) fun getAppDomain =>
    Granted (.DefineMemberRef hookType (wide "OnMethodEnter") methodHookSig) fun onEnter =>
    Granted (.DefineMemberRef hookType (wide "OnMethodExit") methodHookSig) fun onExit =>
    rest ⟨object, hostModuleRef, getAppDomain, onEnter, onExit⟩

def HookDefined (moduleId : ModuleID) (bridgeType : mdTypeDef) (name : WString) (hookRef : mdMethodDef)
    (rest : mdMethodDef → Dialogue clr) : Dialogue clr :=
  Granted (.DefineMethod bridgeType name (mdStatic ||| mdPublic ||| mdHideBySig) methodHookSig (miIL ||| miManaged))
    fun methodDef => Stored moduleId methodDef (MethodHookIL hookRef) (rest methodDef)

def Bridged (moduleId : ModuleID) (references : ProfilerCoreReferences) (rest : HookBridge → Dialogue clr) :
    Dialogue clr :=
  Asked .GetTickCount fun tickCount =>
    Granted (.DefineTypeDef (bridgeTypeName tickCount) (tdClass ||| tdAbstract ||| tdSealed) references.objectTypeRef)
      fun bridgeType =>
    Granted (.DefineMethod bridgeType (wide "InjectProfilerCore") (mdStatic ||| mdPinvokeImpl)
      [IMAGE_CEE_CS_CALLCONV_DEFAULT, 1, ELEMENT_TYPE_VOID, ELEMENT_TYPE_OBJECT] 0) fun inject =>
    Accepted (.DefinePinvokeMap inject (wide "InjectProfilerCore") references.profilerHostModuleRef) <|
    Granted (.DefineParam inject 1 (wide "appDomain") (pdIn ||| pdHasFieldMarshal)) fun param =>
    Accepted (.SetFieldMarshal param [NATIVE_TYPE_IUNKNOWN]) <|
    Granted (.DefineMethod bridgeType (wide ".cctor")
      (mdStatic ||| mdPublic ||| mdSpecialName ||| mdRTSpecialName ||| mdHideBySig)
      [IMAGE_CEE_CS_CALLCONV_DEFAULT, 0, ELEMENT_TYPE_VOID] (miIL ||| miManaged ||| miPreserveSig)) fun ctor =>
    Stored moduleId ctor (HookBridgeCtorIL references.getAppDomainMethodRef inject) <|
    HookDefined moduleId bridgeType (wide "OnMethodEnter") references.onMethodEnterRef fun enterHook =>
    HookDefined moduleId bridgeType (wide "OnMethodExit") references.onMethodExitRef fun exitHook =>
    rest ⟨bridgeType, enterHook, exitHook⟩

def TypesRead : List mdTypeDef → (List TypeInfo → Dialogue clr) → Dialogue clr
  | [], rest => rest []
  | typeDef :: others, rest => Asked (.GetTypeDefProps typeDef) fun answer runtime =>
      FAILED answer.1 ∨ TypesRead others (fun types => rest
        (if answer.1 = S_OK then ⟨typeDef, cString answer.2.name, answer.2.flags⟩ :: types else types)) runtime

def TypesListed (rest : List TypeInfo → Dialogue clr) : Dialogue clr :=
  Asked (.EnumTypeDefs 164) fun enumeration =>
    TypesRead enumeration.batches.flatten fun types => Ended enumeration.last (rest types)

/-- The walk up the enclosing classes has an end. -/
def Walked (namespaceFilter : WString) : (turns : Nat) → mdTypeDef → (Bool → Dialogue clr) → Dialogue clr
  | 0, _, _ => fun _ => False
  | turns + 1, typeDef, rest => Asked (.GetNestedClassProps typeDef) fun enclosing runtime =>
      if FAILED enclosing.1 then rest false runtime
      else Asked (.GetTypeDefProps enclosing.2) (fun props runtime => FAILED props.1 ∨
        if wcsncmp props.2.name namespaceFilter namespaceFilter.length = 0 then rest true runtime
        else if IsNestedType props.2.flags then Walked namespaceFilter turns enclosing.2 rest runtime
        else rest false runtime) runtime

def NamespaceTested (turns : Nat) (namespaceFilter : WString) (type : TypeInfo) (rest : Bool → Dialogue clr) :
    Dialogue clr :=
  if wcsncmp type.name namespaceFilter namespaceFilter.length = 0 then rest true
  else if IsNestedType type.typeDefFlags then Walked namespaceFilter turns type.id rest
  else rest false

def TypesFiltered (turns : Nat) (namespaceFilter : WString) :
    List TypeInfo → (List TypeInfo → Dialogue clr) → Dialogue clr
  | [], rest => rest []
  | type :: others, rest => NamespaceTested turns namespaceFilter type fun inNamespace =>
      TypesFiltered turns namespaceFilter others fun types => rest (if inNamespace then type :: types else types)

/-- The methods of one type, with the tokens behind the last one given. -/
def MethodsInstrumented (moduleId : ModuleID) (bridge : HookBridge) :
    List mdMethodDef → (tokenCounter : UInt64) → (UInt64 → Dialogue clr) → Dialogue clr
  | [], tokenCounter, rest => rest tokenCounter
  | methodDef :: others, tokenCounter, rest => Granted (.GetMethodProps methodDef 256) fun _ =>
      HooksInjected moduleId methodDef
        ⟨bridge.methodEnterHookDef, bridge.methodExitHookDef, some (tokenCounter + 1)⟩ fun _ =>
        MethodsInstrumented moduleId bridge others (tokenCounter + 1) rest

def TypesInstrumented (moduleId : ModuleID) (bridge : HookBridge) :
    List TypeInfo → (tokenCounter : UInt64) → Dialogue clr
  | [], _ => fun _ => True
  | type :: others, tokenCounter => Asked (.EnumMethods type.id 64) fun enumeration => Ended enumeration.last <|
      MethodsInstrumented moduleId bridge enumeration.batches.flatten tokenCounter <|
      TypesInstrumented moduleId bridge others

def TargetInstrumented (turns : Nat) (namespaceFilter : WString) (tokenCounter : UInt64) (moduleId : ModuleID) :
    Dialogue clr :=
  CoreReferenced fun references => Bridged moduleId references fun bridge => TypesListed fun types =>
    TypesFiltered turns namespaceFilter types fun types => TypesInstrumented moduleId bridge types tokenCounter

end Target

/-- The module is described, gets its instrumenter and is instrumented, or the runtime refuses one of the calls
for it; a walk up the enclosing classes has an end within so many turns. -/
def Instrumented (turns : Nat) (namespaceFilter : WString) (tokenCounter : UInt64) (moduleId : ModuleID) :
    Dialogue clr :=
  Described moduleId fun _ => Described moduleId fun assemblyName => Opened moduleId <| Described moduleId fun _ =>
    if assemblyName = wide "mscorlib" then MscorlibInstrumented moduleId
    else if assemblyName = wide "ProfilerCore" then ProfilerCoreInstrumented moduleId
    else TargetInstrumented turns namespaceFilter tokenCounter moduleId

end Dialogue

end ClrProfiling
