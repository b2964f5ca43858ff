import ClrProfiling.Host.ModuleInstrumenter

/-! The instrumenter of a profiled module: a bridge type that calls `ProfilerCore`, and the
hooks in the methods of the profiled namespace. -/

namespace ClrProfiling

open Host

def mdPrivate : UInt32 := 0x0001
def mdPublic : UInt32 := 0x0006
def mdStatic : UInt32 := 0x0010
def mdHideBySig : UInt32 := 0x0080
def mdSpecialName : UInt32 := 0x0800
def mdRTSpecialName : UInt32 := 0x1000
def mdPinvokeImpl : UInt32 := 0x2000
def miIL : UInt32 := 0x0000
def miManaged : UInt32 := 0x0000
def miPreserveSig : UInt32 := 0x0080
def pdIn : UInt32 := 0x0001
def pdHasFieldMarshal : UInt32 := 0x2000

abbrev CEE_LDARG_0 : Nat := 0x02

def CorILMethod_TinyFormat : Nat := 0x2

/-- An opcode with a token behind it. -/
def tokenInstr (opcode : Nat) (token : mdToken) : List UInt8 :=
  UInt8.ofNat opcode :: LittleEndian.encode 4 token.toNat

/-- A body behind a tiny header, which holds its size. -/
def tinyBody (code : List UInt8) : List UInt8 := UInt8.ofNat (CorILMethod_TinyFormat ||| code.length <<< 2) :: code

def HookBridgeCtorIL (getAppDomain injectProfilerCore : mdMethodDef) : List UInt8 :=
  tinyBody (tokenInstr CEE_CALL getAppDomain ++ tokenInstr CEE_CALL injectProfilerCore ++ [UInt8.ofNat CEE_RET])

def MethodHookIL (hook : mdMethodDef) : List UInt8 :=
  tinyBody (UInt8.ofNat CEE_LDARG_0 :: tokenInstr CEE_CALL hook ++ [UInt8.ofNat CEE_RET])

/-- The signature of both hooks, in the bridge type and in `ProfilingHook`. -/
def methodHookSig : List UInt8 := [IMAGE_CEE_CS_CALLCONV_DEFAULT, 1, ELEMENT_TYPE_VOID, ELEMENT_TYPE_U8]

/-- What `AddProfilerCoreReferences` leaves in the instrumenter. -/
structure ProfilerCoreReferences where
  objectTypeRef : mdTypeRef
  profilerHostModuleRef : mdToken
  getAppDomainMethodRef : mdMethodDef
  onMethodEnterRef : mdMethodDef
  onMethodExitRef : mdMethodDef
deriving DecidableEq, Repr

/-- The hooks `AddHookBridgeType` leaves in the instrumenter, and the type it has put them in. -/
structure HookBridge where
  bridgeType : mdTypeDef
  methodEnterHookDef : mdMethodDef
  methodExitHookDef : mdMethodDef
deriving DecidableEq, Repr

namespace TargetModuleInstrumenter

open ModuleInstrumenter

variable {clr : Clr}

/-- What is left of the types behind `remove_if`. -/
def FilterTypes (namespaceFilter : WString) : List TypeInfo → Host clr (List TypeInfo)
  | [] => pure []
  | typeInfo :: rest => do
    let inNamespace ← IsTypeInNamespace typeInfo.name namespaceFilter typeInfo.id typeInfo.typeDefFlags
    let others ← FilterTypes namespaceFilter rest
    pure (if inNamespace then typeInfo :: others else others)

def GetModuleTypesToInstrument (namespaceFilter : WString) : Host clr (List TypeInfo) := do
  let moduleTypes ← GetModuleTypes
  FilterTypes namespaceFilter moduleTypes

def AddProfilerCoreReferences : Host clr ProfilerCoreReferences := do
  let mscorlibAssemblyRef ← checked (.DefineAssemblyRef (wide "mscorlib"))
  let profilerCoreAssemblyRef ← checked (.DefineAssemblyRef (wide "ProfilerCore"))
  let profilerHostModuleRef ← checked (.DefineModuleRef (wide "ProfilerHost"))
  let objectTypeRef ← checked (.DefineTypeRefByName mscorlibAssemblyRef (wide "System.Object"))
  let appDomainTypeRef ← checked (.DefineTypeRefByName mscorlibAssemblyRef (wide "System.AppDomain"))
  let profilingHookTypeRef ← checked (.DefineTypeRefByName profilerCoreAssemblyRef (wide "ProfilerCore.ProfilingHook"))
  let getAppDomainSig := [IMAGE_CEE_CS_CALLCONV_DEFAULT, 0, ELEMENT_TYPE_CLASS] ++
    clr.CorSigCompressToken appDomainTypeRef
  let getAppDomainMethodRef ← checked (.DefineMemberRef appDomainTypeRef (wide "get_CurrentDomain") getAppDomainSig)
  let onMethodEnterRef ← checked (.DefineMemberRef profilingHookTypeRef (wide "OnMethodEnter") methodHookSig)
  let onMethodExitRef ← checked (.DefineMemberRef profilingHookTypeRef (wide "OnMethodExit") methodHookSig)
  pure { objectTypeRef, profilerHostModuleRef, getAppDomainMethodRef, onMethodEnterRef, onMethodExitRef }

/-- One of the two methods of the bridge that hand a token on to `ProfilingHook`. -/
def AddHookMethod (moduleId : ModuleID) (bridgeType : mdTypeDef) (name : WString) (hookRef : mdMethodDef) :
    Host clr mdMethodDef := do
  let methodDef ← checked (.DefineMethod bridgeType name (mdStatic ||| mdPublic ||| mdHideBySig) methodHookSig
    (miIL ||| miManaged))
  SetNewBody moduleId methodDef (MethodHookIL hookRef)
  pure methodDef

def bridgeTypeName (tickCount : UInt32) : WString := wide "ProfilerHookBridge" ++ decimal tickCount.toNat

def AddHookBridgeType (moduleId : ModuleID) (references : ProfilerCoreReferences) : Host clr HookBridge := do
  let tickCount ← call .GetTickCount
  let bridgeType ← checked (.DefineTypeDef (bridgeTypeName tickCount) (tdClass ||| tdAbstract ||| tdSealed)
    references.objectTypeRef)
  let injectProfilerCoreSig := [IMAGE_CEE_CS_CALLCONV_DEFAULT, 1, ELEMENT_TYPE_VOID, ELEMENT_TYPE_OBJECT]
  let injectProfilerCoreMethod ← checked (.DefineMethod bridgeType (wide "InjectProfilerCore")
    (mdStatic ||| mdPinvokeImpl) injectProfilerCoreSig 0)
  check (.DefinePinvokeMap injectProfilerCoreMethod (wide "InjectProfilerCore") references.profilerHostModuleRef)
  let appDomainParamDef ← checked
    (.DefineParam injectProfilerCoreMethod 1 (wide "appDomain") (pdIn ||| pdHasFieldMarshal))
  check (.SetFieldMarshal appDomainParamDef [NATIVE_TYPE_IUNKNOWN])
  let bridgeCtorSig := [IMAGE_CEE_CS_CALLCONV_DEFAULT, 0, ELEMENT_TYPE_VOID]
  let bridgeCtor ← checked (.DefineMethod bridgeType (wide ".cctor")
    (mdStatic ||| mdPublic ||| mdSpecialName ||| mdRTSpecialName ||| mdHideBySig) bridgeCtorSig
    (miIL ||| miManaged ||| miPreserveSig))
  SetNewBody moduleId bridgeCtor (HookBridgeCtorIL references.getAppDomainMethodRef injectProfilerCoreMethod)
  let methodEnterHookDef ← AddHookMethod moduleId bridgeType (wide "OnMethodEnter") references.onMethodEnterRef
  let methodExitHookDef ← AddHookMethod moduleId bridgeType (wide "OnMethodExit") references.onMethodExitRef
  pure { bridgeType, methodEnterHookDef, methodExitHookDef }

/-- The hooks of one method; what comes of injecting them is not looked at. -/
def InstrumentMethod (instrumenter : ModuleInstrumenter) (bridge : HookBridge) (type : TypeInfo)
    (methodDef : mdMethodDef) : Host clr Unit := do
  let methodDesc ← GetMethodDescription methodDef
  let methodMetadata ← Host.RegisterMethod instrumenter.moduleName type.name methodDesc
  let _ ← Host.InjectEnterExitHooks instrumenter.moduleId methodDef bridge.methodEnterHookDef bridge.methodExitHookDef
    (some methodMetadata.token)

def InstrumentType (instrumenter : ModuleInstrumenter) (bridge : HookBridge) (type : TypeInfo) : Host clr Unit := do
  let typeMethodDefs ← GetTypeMethods type.id
  typeMethodDefs.forM (InstrumentMethod instrumenter bridge type)

/-- Without types to profile there is nothing to do but to say so. -/
def InstrumentMethods (instrumenter : ModuleInstrumenter) (bridge : HookBridge) : Host clr Unit := do
  let s ← Effect.get
  let moduleTypes ← GetModuleTypesToInstrument s.config.namespaceToProfile
  moduleTypes.forM (InstrumentType instrumenter bridge)

def Instrument (instrumenter : ModuleInstrumenter) : Host clr Unit := do
  let references ← AddProfilerCoreReferences
  let bridge ← AddHookBridgeType instrumenter.moduleId references
  InstrumentMethods instrumenter bridge

end TargetModuleInstrumenter

end ClrProfiling
