import ClrProfiling.Foundation.Effect
import ClrProfiling.Host.IpcClient
import ClrProfiling.IL.Container

/-! The runtime as the instrumenters see it: the calls they make, what is answered, and the
state of the host between them. -/

namespace ClrProfiling

abbrev HRESULT := UInt32
abbrev ModuleID := UInt64
abbrev AssemblyID := UInt64
abbrev mdToken := UInt32
abbrev mdTypeDef := mdToken
abbrev mdTypeRef := mdToken
abbrev mdMethodDef := mdToken
abbrev mdFieldDef := mdToken

def S_OK : HRESULT := 0
def S_FALSE : HRESULT := 1
def E_FAIL : HRESULT := 0x80004005
def E_OUTOFMEMORY : HRESULT := 0x8007000E
def COR_E_INVALIDPROGRAM : HRESULT := 0x8013153A

def FAILED (hr : HRESULT) : Prop := 0x80000000 ≤ hr

instance (hr : HRESULT) : Decidable (FAILED hr) := inferInstanceAs (Decidable (_ ≤ _))

/-- A literal of ASCII characters. -/
def wide (text : String) : WString := text.toList.map fun char => UInt16.ofNat char.toNat

/-- The string a buffer holds: what stands in front of the first NUL. -/
def cString (buffer : WString) : WString := buffer.takeWhile (· ≠ 0)

section Signatures

def IMAGE_CEE_CS_CALLCONV_DEFAULT : UInt8 := 0x00
def IMAGE_CEE_CS_CALLCONV_FIELD : UInt8 := 0x06
def IMAGE_CEE_CS_CALLCONV_GENERIC : UInt8 := 0x10
def IMAGE_CEE_CS_CALLCONV_HASTHIS : UInt8 := 0x20

def ELEMENT_TYPE_VOID : UInt8 := 0x01
def ELEMENT_TYPE_BOOLEAN : UInt8 := 0x02
def ELEMENT_TYPE_U4 : UInt8 := 0x09
def ELEMENT_TYPE_I8 : UInt8 := 0x0A
def ELEMENT_TYPE_U8 : UInt8 := 0x0B
def ELEMENT_TYPE_CLASS : UInt8 := 0x12
def ELEMENT_TYPE_OBJECT : UInt8 := 0x1C

def NATIVE_TYPE_IUNKNOWN : UInt8 := 0x19

end Signatures

section Answers

structure ModuleInfo where
  fileName : WString
  assemblyId : AssemblyID

structure TypeDefProps where
  name : WString
  flags : UInt32

/-- `sigBlob` is the memory behind the pointer to the signature. -/
structure MethodProps where
  name : WString
  sigBlob : Nat → UInt8

/-- What an enumerator hands out from its opening on: batches with S_OK, and then the same answer
for ever. One that goes on with S_OK has no end. -/
structure Enumeration (cMax : Nat) where
  batches : List (List mdToken)
  last : HRESULT
  fits : ∀ batch ∈ batches, batch.length ≤ cMax

/-- The interfaces a `QueryInterface` asks for. -/
inductive Interface where
  | IID_IMetaDataAssemblyEmit
  | IID_IMetaDataImport2
deriving DecidableEq, Repr

/-- The calls into the runtime, each with the type of its answer. What is written through
pointers is part of the answer whatever the HRESULT. -/
inductive Call : Type → Type
  | GetModuleInfo (moduleId : ModuleID) : Call (HRESULT × ModuleInfo)
  | GetAssemblyInfo (assemblyId : AssemblyID) : Call (HRESULT × WString)
  | GetILFunctionBodyAllocator (moduleId : ModuleID) : Call HRESULT
  | Alloc (size : Nat) : Call Bool
  | GetModuleMetaData (moduleId : ModuleID) : Call HRESULT
  | QueryInterface (iid : Interface) : Call HRESULT
  | GetILFunctionBody (moduleId : ModuleID) (methodDef : mdMethodDef) : Call (HRESULT × MethodBody)
  | SetILFunctionBody (moduleId : ModuleID) (methodDef : mdMethodDef) (pBody : List UInt8) : Call HRESULT
  | EnumTypeDefs (cMax : Nat) : Call (Enumeration cMax)
  | EnumMethods (typeDef : mdTypeDef) (cMax : Nat) : Call (Enumeration cMax)
  | EnumMethodsWithName (typeDef : mdTypeDef) (name : WString) (cMax : Nat) : Call (Enumeration cMax)
  | GetTypeDefProps (typeDef : mdTypeDef) : Call (HRESULT × TypeDefProps)
  | GetNestedClassProps (typeDef : mdTypeDef) : Call (HRESULT × mdTypeDef)
  | GetMethodProps (methodDef : mdMethodDef) (cchMethod : Nat) : Call (HRESULT × MethodProps)
  | FindTypeDefByName (name : WString) : Call (HRESULT × mdTypeDef)
  | FindMethod (typeDef : mdTypeDef) (name : WString) (signature : List UInt8) : Call (HRESULT × mdMethodDef)
  | FindField (typeDef : mdTypeDef) (name : WString) : Call (HRESULT × mdFieldDef)
  | DefineAssemblyRef (name : WString) : Call (HRESULT × mdToken)
  | DefineModuleRef (name : WString) : Call (HRESULT × mdToken)
  | DefineTypeRefByName (scope : mdToken) (name : WString) : Call (HRESULT × mdTypeRef)
  | DefineMemberRef (parent : mdToken) (name : WString) (signature : List UInt8) : Call (HRESULT × mdToken)
  | DefineTypeDef (name : WString) (flags : UInt32) (base : mdToken) : Call (HRESULT × mdTypeDef)
  | DefineMethod (typeDef : mdTypeDef) (name : WString) (flags : UInt32) (signature : List UInt8)
      (implFlags : UInt32) : Call (HRESULT × mdMethodDef)
  | DefineField (typeDef : mdTypeDef) (name : WString) (flags : UInt32) (signature : List UInt8) :
      Call (HRESULT × mdFieldDef)
  | DefinePinvokeMap (methodDef : mdMethodDef) (name : WString) (moduleRef : mdToken) : Call HRESULT
  | DefineParam (methodDef : mdMethodDef) (sequence : Nat) (name : WString) (flags : UInt32) : Call (HRESULT × mdToken)
  | SetFieldMarshal (token : mdToken) (nativeType : List UInt8) : Call HRESULT
  | GetTickCount : Call UInt32

end Answers

/-- A runtime: how it answers and changes with every call, and what the build takes from its
headers. -/
structure Clr where
  State : Type
  answer : {Answer : Type} → Call Answer → State → Answer × State
  platform : Platform
  CorSigCompressToken : mdToken → List UInt8
  /-- The bytes a number in a signature takes, and the number. -/
  CorSigUncompressData : (Nat → UInt8) → Nat × Nat

/-- Why a call does not come back: an exception, an access the language gives no meaning to, or a
loop that goes on for longer than the model follows it. -/
inductive Stop where
  | comError (hr : HRESULT)
  | runtimeError (message : String)
  | undefined
  | unfinished
deriving DecidableEq, Repr

/-- The calls an instrumenter makes for a method it profiles. -/
inductive HostCall where
  | RegisterMethod (method : MethodMetadata)
  | InjectEnterExitHooks (methodDef onEnterHook onExitHook : mdMethodDef) (hookArg : Option UInt64)
deriving DecidableEq, Repr

/-- `sent` are the requests to the server, `calls` the calls for methods, each in their order, and
`turns` is how far a loop with no bound of its own is followed. -/
structure HostState (clr : Clr) where
  runtime : clr.State
  metadataRegistry : MetadataRegistry (List MethodMetadataMsg)
  config : ProfilingConfig
  sent : List MethodMetadataMsg
  calls : List HostCall
  turns : Nat

abbrev Host (clr : Clr) (Result : Type) : Type := Effect (HostState clr) Stop Result

namespace Host

variable {clr : Clr}

def call {Answer : Type} (request : Call Answer) : Host clr Answer := fun s =>
  (.ok (clr.answer request s.runtime).1, { s with runtime := (clr.answer request s.runtime).2 })

def note (hostCall : HostCall) : Host clr Unit := Effect.modify fun s => { s with calls := s.calls ++ [hostCall] }

/-- Throws where the HRESULT is a failure, and hands it on otherwise. -/
def ComOp (hr : HRESULT) : Host clr HRESULT := if FAILED hr then Effect.raise (.comError hr) else pure hr

/-- A call under `ComOp`, for what it writes. -/
def checked {Value : Type} (request : Call (HRESULT × Value)) : Host clr Value := do
  let (hr, value) ← call request
  let _ ← ComOp hr
  pure value

/-- A call under `ComOp` that writes nothing. -/
def check (request : Call HRESULT) : Host clr Unit := do
  let hr ← call request
  let _ ← ComOp hr

def RegisterMethod (assemblyName typeName signature : WString) : Host clr MethodMetadata := do
  let s ← Effect.get
  let (metadata, metadataRegistry, sent) := s.metadataRegistry.RegisterMethod s.sent assemblyName typeName signature
  Effect.modify fun s => { s with metadataRegistry, sent }
  note (.RegisterMethod metadata)
  pure metadata

/-- The loop of an enumerator behind its last batch. -/
def EndEnum (last : HRESULT) : Host clr Unit := do
  let hr ← ComOp last
  if hr = S_OK then Effect.raise .unfinished else pure ()

/-- A body in the memory the allocator of the module gives, which is not asked whether it has any. -/
def SetNewBody (moduleId : ModuleID) (methodDef : mdMethodDef) (pBody : List UInt8) : Host clr Unit := do
  let allocated ← call (.Alloc pBody.length)
  if allocated then check (.SetILFunctionBody moduleId methodDef pBody) else Effect.raise .undefined

/-- What becomes of a call in the rewriter that fails: an HRESULT is handed on. -/
def fail : Failure → Host clr HRESULT
  | .E_FAIL => pure ClrProfiling.E_FAIL
  | .COR_E_INVALIDPROGRAM => pure ClrProfiling.COR_E_INVALIDPROGRAM
  | .outOfFuel => Effect.raise .unfinished
  | .invalidPointer => Effect.raise .undefined
  | .outOfBounds => Effect.raise .undefined

/-- The end of `Export`: memory for the new body, what is written to it, and its way into the runtime. -/
def SetBody (moduleId : ModuleID) (methodDef : mdMethodDef) (rewriter : ILRewriter) (code : List UInt8) :
    Host clr HRESULT := do
  let hr ← call (.GetILFunctionBodyAllocator moduleId)
  if FAILED hr then pure E_OUTOFMEMORY
  else
    let allocated ← call (.Alloc (totalBodySize code.length rewriter.m_pEH.length))
    if allocated then
      match rewriter.WrittenBody clr.platform code with
      | .error failure => fail failure
      | .ok pBody =>
        let hr ← call (.SetILFunctionBody moduleId methodDef (pBody.read 0 pBody.size))
        pure (if FAILED hr then hr else S_OK)
    else pure E_OUTOFMEMORY

def InjectEnterExitHooks (moduleId : ModuleID) (methodDef onEnterHook onExitHook : mdMethodDef)
    (hookArg : Option UInt64) : Host clr HRESULT := do
  note (.InjectEnterExitHooks methodDef onEnterHook onExitHook hookArg)
  let (hr, body) ← call (.GetILFunctionBody moduleId methodDef)
  if FAILED hr then pure hr
  else
    match Rewrite clr.platform body ⟨onEnterHook, onExitHook, hookArg⟩ with
    | .error failure => fail failure
    | .ok (rewriter, code) => SetBody moduleId methodDef rewriter code

end Host

end ClrProfiling
