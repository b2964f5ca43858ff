import ClrProfiling.Host.Clr

/-! What the instrumenters share: the metadata of a module, its types and methods, and the
test for the namespace that is profiled. -/

namespace ClrProfiling

open Host

def tdClass : UInt32 := 0x00000000
def tdPublic : UInt32 := 0x00000001
def tdNestedPublic : UInt32 := 0x00000002
def tdNestedPrivate : UInt32 := 0x00000003
def tdNestedFamily : UInt32 := 0x00000004
def tdNestedAssembly : UInt32 := 0x00000005
def tdNestedFamANDAssem : UInt32 := 0x00000006
def tdNestedFamORAssem : UInt32 := 0x00000007
def tdVisibilityMask : UInt32 := 0x00000007
def tdAbstract : UInt32 := 0x00000080
def tdSealed : UInt32 := 0x00000100

/-- The sign of the first difference of two NUL-terminated strings among `count` units. -/
def wcsncmp : (left right : WString) → (count : Nat) → Int
  | _, _, 0 => 0
  | left, right, count + 1 =>
    let first := left.headD 0
    let second := right.headD 0
    if first = second then if first = 0 then 0 else wcsncmp left.tail right.tail count
    else first.toNat - second.toNat

structure TypeInfo where
  id : mdTypeDef
  name : WString
  typeDefFlags : UInt32
deriving DecidableEq, Repr

structure MethodInfo where
  id : mdMethodDef
  name : WString
  parameterCount : Nat
deriving DecidableEq, Repr

structure ModuleInstrumenter where
  moduleId : ModuleID
  moduleName : WString
  assemblyName : WString
  moduleFileName : WString
deriving DecidableEq, Repr

/-- A number as `std::to_wstring` and a stream write it. -/
def decimal (value : Nat) : WString := (Nat.toDigits 10 value).map fun char => UInt16.ofNat char.toNat

def GetParameterCountFromMethodSig (clr : Clr) (signature : Nat → UInt8) : Nat :=
  let index := 1
  let index :=
    if signature 0 &&& IMAGE_CEE_CS_CALLCONV_GENERIC ≠ 0 then
      index + (clr.CorSigUncompressData fun offset => signature (index + offset)).1
    else index
  (clr.CorSigUncompressData fun offset => signature (index + offset)).2

namespace ModuleInstrumenter

variable {clr : Clr}

def ReadModuleInfo (moduleId : ModuleID) : Host clr ModuleInstrumenter := do
  let info ← checked (.GetModuleInfo moduleId)
  let assemblyName ← checked (.GetAssemblyInfo info.assemblyId)
  pure {
    moduleId
    moduleName := cString assemblyName ++ wide ":" ++ decimal moduleId.toNat
    assemblyName := cString assemblyName
    moduleFileName := cString info.fileName }

/-- The constructor. -/
def new (moduleId : ModuleID) : Host clr ModuleInstrumenter := do
  check (.GetILFunctionBodyAllocator moduleId)
  check (.GetModuleMetaData moduleId)
  check (.QueryInterface .IID_IMetaDataAssemblyEmit)
  check (.QueryInterface .IID_IMetaDataImport2)
  ReadModuleInfo moduleId

/-- The types of one batch; one whose name cannot be read in full is left out. -/
def ReadTypes : List mdTypeDef → Host clr (List TypeInfo)
  | [] => pure []
  | typeDef :: rest => do
    let (hr, props) ← call (.GetTypeDefProps typeDef)
    let hr ← ComOp hr
    let others ← ReadTypes rest
    pure (if hr = S_OK then ⟨typeDef, cString props.name, props.flags⟩ :: others else others)

def ReadTypeBatches (last : HRESULT) : List (List mdTypeDef) → Host clr (List TypeInfo)
  | [] => do
    EndEnum last
    pure []
  | batch :: rest => do
    let types ← ReadTypes batch
    let others ← ReadTypeBatches last rest
    pure (types ++ others)

def GetModuleTypes : Host clr (List TypeInfo) := do
  let enumeration ← call (.EnumTypeDefs 164)
  ReadTypeBatches enumeration.last enumeration.batches

def IsNestedType (typeDefFlags : UInt32) : Bool :=
  typeDefFlags &&& tdNestedPublic ≠ 0
    || typeDefFlags &&& tdNestedAssembly ≠ 0
    || typeDefFlags &&& tdNestedFamANDAssem ≠ 0
    || typeDefFlags &&& tdNestedFamORAssem ≠ 0
    || typeDefFlags &&& tdNestedFamily ≠ 0
    || typeDefFlags &&& tdNestedPrivate ≠ 0

/-- The walk up the enclosing classes, which may go on for ever. -/
def NestedWalk (namespaceFilter : WString) : (fuel : Nat) → mdTypeDef → Host clr Bool
  | 0, _ => Effect.raise .unfinished
  | fuel + 1, typeDef => do
    let (hr, enclosingClassTypeDef) ← call (.GetNestedClassProps typeDef)
    if FAILED hr then pure false
    else
      let (hr, props) ← call (.GetTypeDefProps enclosingClassTypeDef)
      let hr ← ComOp hr
      if FAILED hr then pure false
      else if wcsncmp props.name namespaceFilter namespaceFilter.length = 0 then pure true
      else if IsNestedType props.flags then NestedWalk namespaceFilter fuel enclosingClassTypeDef
      else pure false

def IsNestedTypeInNamespace (typeDef : mdTypeDef) (namespaceFilter : WString) : Host clr Bool := do
  let s ← Effect.get
  NestedWalk namespaceFilter s.turns typeDef

def IsTypeInNamespace (typeName namespaceFilter : WString) (typeDef : mdTypeDef) (typeDefFlags : UInt32) :
    Host clr Bool :=
  if wcsncmp typeName namespaceFilter namespaceFilter.length = 0 then pure true
  else if IsNestedType typeDefFlags then IsNestedTypeInNamespace typeDef namespaceFilter
  else pure false

/-- The loop over the batches of a method enumerator. -/
def ReadMethodBatches (last : HRESULT) : List (List mdMethodDef) → Host clr (List mdMethodDef)
  | [] => do
    EndEnum last
    pure []
  | batch :: rest => do
    let others ← ReadMethodBatches last rest
    pure (batch ++ others)

def GetTypeMethods (typeDef : mdTypeDef) : Host clr (List mdMethodDef) := do
  let enumeration ← call (.EnumMethods typeDef 64)
  ReadMethodBatches enumeration.last enumeration.batches

/-- The methods of one batch. Whether their properties could be read is not looked at; if not, the
pointer to the signature is not set. -/
def ReadMethodInfos : List mdMethodDef → Host clr (List MethodInfo)
  | [] => pure []
  | methodDef :: rest => do
    let (hr, props) ← call (.GetMethodProps methodDef 1024)
    if FAILED hr then Effect.raise .undefined
    else
      let others ← ReadMethodInfos rest
      pure (⟨methodDef, cString props.name, GetParameterCountFromMethodSig clr props.sigBlob⟩ :: others)

def ReadMethodInfoBatches (last : HRESULT) : List (List mdMethodDef) → Host clr (List MethodInfo)
  | [] => do
    EndEnum last
    pure []
  | batch :: rest => do
    let methods ← ReadMethodInfos batch
    let others ← ReadMethodInfoBatches last rest
    pure (methods ++ others)

def GetMethodsByName (typeDef : mdTypeDef) (name : WString) : Host clr (List MethodInfo) := do
  let enumeration ← call (.EnumMethodsWithName typeDef name 64)
  ReadMethodInfoBatches enumeration.last enumeration.batches

def GetMethodDescription (methodDef : mdMethodDef) : Host clr WString := do
  let props ← checked (.GetMethodProps methodDef 256)
  pure (cString props.name)

end ModuleInstrumenter

end ClrProfiling
