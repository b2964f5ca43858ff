import ClrProfiling.Host.CorProfiler

/-! The metadata of a module as tables of types and methods, what a runtime has to answer to
serve and extend them, and a runtime that does. -/

namespace ClrProfiling

structure TypeDef where
  token : mdTypeDef
  name : WString
  flags : UInt32
  enclosing : Option mdTypeDef
  methods : List mdMethodDef
deriving DecidableEq, Repr

/-- `description` is what is written to a buffer for the name of a method. -/
structure Metadata where
  types : List TypeDef
  description : mdMethodDef → WString

namespace Metadata

def methods (metadata : Metadata) : List mdMethodDef := metadata.types.flatMap TypeDef.methods

/-- Tokens are unique, names are C strings, and the nested visibilities are those of the types
that have an enclosing class. -/
structure WellFormed (metadata : Metadata) : Prop where
  tokens : (metadata.types.map TypeDef.token).Nodup
  methods : metadata.methods.Nodup
  names : ∀ type ∈ metadata.types, 0 ∉ type.name
  enclosing : ∀ type ∈ metadata.types, ∀ token ∈ type.enclosing, ∃ outer ∈ metadata.types, outer.token = token
  visibility : ∀ type ∈ metadata.types, type.enclosing.isSome ↔ tdNestedPublic ≤ type.flags &&& tdVisibilityMask

/-- Classes are nested in classes of smaller depth. -/
def Ranked (metadata : Metadata) (depth : mdTypeDef → Nat) : Prop :=
  ∀ type ∈ metadata.types, ∀ token ∈ type.enclosing, depth token < depth type.token

/-- No class is nested in itself, at whatever depth. -/
def Acyclic (metadata : Metadata) : Prop := ∃ depth, metadata.Ranked depth

def addType (metadata : Metadata) (token : mdTypeDef) (name : WString) (flags : UInt32) : Metadata :=
  { metadata with types := metadata.types ++ [⟨token, name, flags, none, []⟩] }

def addMethod (metadata : Metadata) (typeDef : mdTypeDef) (methodDef : mdMethodDef) (name : WString) : Metadata where
  types := metadata.types.map fun type =>
    if type.token = typeDef then { type with methods := type.methods ++ [methodDef] } else type
  description := Function.update metadata.description methodDef name

end Metadata

/-- The calls that add types or methods. -/
def Call.adds {Answer : Type} : Call Answer → Bool
  | .DefineTypeDef .. => true
  | .DefineMethod .. => true
  | _ => false

/-- A runtime that answers from tables, in batches of whatever size fits. -/
structure Serves (clr : Clr) (view : clr.State → Metadata) : Prop where
  typeDefs : ∀ s, (clr.answer (.EnumTypeDefs 164) s).1.batches.flatten = (view s).types.map TypeDef.token
  typeDefsEnd : ∀ s, (clr.answer (.EnumTypeDefs 164) s).1.last = S_FALSE
  methodDefs : ∀ s, ∀ type ∈ (view s).types,
    (clr.answer (.EnumMethods type.token 64) s).1.batches.flatten = type.methods
  methodDefsEnd : ∀ s, ∀ type ∈ (view s).types, (clr.answer (.EnumMethods type.token 64) s).1.last = S_FALSE
  typeProps : ∀ s, ∀ type ∈ (view s).types,
    (clr.answer (.GetTypeDefProps type.token) s).1 = (S_OK, ⟨type.name, type.flags⟩)
  nested : ∀ s, ∀ type ∈ (view s).types, ∀ token ∈ type.enclosing,
    ¬FAILED (clr.answer (.GetNestedClassProps type.token) s).1.1 ∧
      (clr.answer (.GetNestedClassProps type.token) s).1.2 = token
  topLevel : ∀ s, ∀ type ∈ (view s).types, type.enclosing = none →
    FAILED (clr.answer (.GetNestedClassProps type.token) s).1.1
  methodProps : ∀ s, ∀ methodDef ∈ (view s).methods,
    ¬FAILED (clr.answer (.GetMethodProps methodDef 256) s).1.1 ∧
      (clr.answer (.GetMethodProps methodDef 256) s).1.2.name = (view s).description methodDef
  keeps : ∀ {Answer : Type} (request : Call Answer) s, request.adds = false →
    view (clr.answer request s).2 = view s

/-- A runtime whose tables show what is defined. -/
structure Defines (clr : Clr) (view : clr.State → Metadata) : Prop extends Serves clr view where
  typeDef : ∀ name flags base s, ¬FAILED (clr.answer (.DefineTypeDef name flags base) s).1.1 →
    (clr.answer (.DefineTypeDef name flags base) s).1.2 ∉ (view s).types.map TypeDef.token ∧
      view (clr.answer (.DefineTypeDef name flags base) s).2 =
        (view s).addType (clr.answer (.DefineTypeDef name flags base) s).1.2 name flags
  method : ∀ typeDef name flags signature implFlags s,
    ¬FAILED (clr.answer (.DefineMethod typeDef name flags signature implFlags) s).1.1 →
      (clr.answer (.DefineMethod typeDef name flags signature implFlags) s).1.2 ∉ (view s).methods ∧
        view (clr.answer (.DefineMethod typeDef name flags signature implFlags) s).2 =
          (view s).addMethod typeDef (clr.answer (.DefineMethod typeDef name flags signature implFlags) s).1.2 name

section Tables

def CLDB_E_RECORD_NOTFOUND : HRESULT := 0x80131130

/-- An enumerator that hands out one item after the other. -/
def Enumeration.ofTokens (cMax : Nat) (tokens : List mdToken) : Enumeration cMax where
  batches := if 0 < cMax then tokens.map ([·]) else []
  last := S_FALSE
  fits := by
    intro batch member
    split at member
    · obtain ⟨token, -, rfl⟩ := List.mem_map.mp member
      assumption
    · simp at member

/-- Tables with unique tokens, in which a class stands behind the one it is nested in. -/
structure Tables extends Metadata where
  tokens : (types.map TypeDef.token).Nodup
  ordered : ∀ type ∈ types, ∀ token ∈ type.enclosing, token < type.token

namespace Tables

def find (tables : Tables) (typeDef : mdTypeDef) : Option TypeDef := tables.types.find? (·.token = typeDef)

def defineType (tables : Tables) (token : mdTypeDef) (name : WString) (flags : UInt32)
    (fresh : token ∉ tables.types.map TypeDef.token) : Tables where
  toMetadata := tables.addType token name flags
  tokens := by
    rw [Metadata.addType, List.map_append]
    refine List.nodup_append.mpr ⟨tables.tokens, List.nodup_singleton _, fun other listed token' added => ?_⟩
    rw [List.mem_singleton.mp added]
    rintro rfl
    exact fresh listed
  ordered := by
    intro type member
    rcases List.mem_append.mp member with listed | added
    · exact tables.ordered type listed
    · rw [List.mem_singleton.mp added]
      exact fun token none => nomatch none

def defineMethod (tables : Tables) (typeDef : mdTypeDef) (methodDef : mdMethodDef) (name : WString) : Tables where
  toMetadata := tables.addMethod typeDef methodDef name
  tokens := by
    have same : (tables.addMethod typeDef methodDef name).types.map TypeDef.token = tables.types.map TypeDef.token := by
      rw [Metadata.addMethod, List.map_map]
      apply List.map_congr_left
      intro type _
      rw [Function.comp_apply]
      split <;> rfl
    rw [same]
    exact tables.tokens
  ordered := by
    intro type member
    obtain ⟨source, listed, rfl⟩ := List.mem_map.mp member
    have ordered := tables.ordered source listed
    split <;> exact ordered

def empty : Tables := ⟨⟨[], fun _ => []⟩, List.nodup_nil, by simp⟩

theorem acyclic (tables : Tables) : tables.toMetadata.Acyclic :=
  ⟨UInt32.toNat, fun type member token enclosing =>
    UInt32.lt_iff_toNat_lt.mp (tables.ordered type member token enclosing)⟩

theorem find_eq {tables : Tables} {type : TypeDef} (member : type ∈ tables.types) :
    tables.find type.token = some type := by
  obtain ⟨found, present⟩ : ∃ found, tables.find type.token = some found := by
    rw [← Option.isSome_iff_exists]
    exact List.find?_isSome.mpr ⟨type, member, by simp⟩
  have token : found.token = type.token := by simpa using List.find?_some present
  rw [present, List.inj_on_of_nodup_map tables.tokens (List.mem_of_find?_eq_some present) member token]

end Tables

/-- A module with one class that is profiled, and one method in it. -/
def programTables : Tables where
  types := [⟨0x02000002, wide "ProfilingTarget.Program", tdPublic, none, [0x06000001]⟩]
  description _ := wide "Main"
  tokens := List.nodup_singleton _
  ordered := by simp

/-- A runtime over tables, for an assembly of the given name. Its bodies cannot be read. -/
def tableRuntime (assemblyName : WString) (tickCount : UInt32) : Clr where
  State := Tables
  answer request tables :=
    match request with
    | .GetModuleInfo _ => ((S_OK, ⟨assemblyName ++ wide ".dll", 1⟩), tables)
    | .GetAssemblyInfo _ => ((S_OK, assemblyName), tables)
    | .GetILFunctionBodyAllocator _ => (S_OK, tables)
    | .Alloc _ => (true, tables)
    | .GetModuleMetaData _ => (S_OK, tables)
    | .QueryInterface _ => (S_OK, tables)
    | .GetILFunctionBody _ _ => ((E_FAIL, ⟨0, 0, 0, [], [], by decide, by decide, noClauses_le⟩), tables)
    | .SetILFunctionBody _ _ _ => (S_OK, tables)
    | .EnumTypeDefs cMax => (.ofTokens cMax (tables.types.map TypeDef.token), tables)
    | .EnumMethods typeDef cMax => (.ofTokens cMax ((tables.find typeDef).elim [] TypeDef.methods), tables)
    | .EnumMethodsWithName _ _ cMax => (.ofTokens cMax [], tables)
    | .GetTypeDefProps typeDef =>
      ((tables.find typeDef).elim (CLDB_E_RECORD_NOTFOUND, ⟨[], 0⟩) fun type => (S_OK, ⟨type.name, type.flags⟩), tables)
    | .GetNestedClassProps typeDef =>
      (((tables.find typeDef).bind TypeDef.enclosing).elim (CLDB_E_RECORD_NOTFOUND, 0) fun token =>
        (S_OK, token), tables)
    | .GetMethodProps methodDef _ => ((S_OK, ⟨tables.description methodDef, fun _ => 0⟩), tables)
    | .FindTypeDefByName _ => ((S_OK, 0x02000002), tables)
    | .FindMethod _ _ _ => ((S_OK, 0x06000001), tables)
    | .FindField _ _ => ((S_OK, 0x04000001), tables)
    | .DefineAssemblyRef _ => ((S_OK, 0x23000001), tables)
    | .DefineModuleRef _ => ((S_OK, 0x1A000001), tables)
    | .DefineTypeRefByName _ _ => ((S_OK, 0x01000001), tables)
    | .DefineMemberRef _ _ _ => ((S_OK, 0x0A000001), tables)
    | .DefineTypeDef name flags _ =>
      let token := UInt32.ofNat (0x02000002 + tables.types.length)
      if known : token ∈ tables.types.map TypeDef.token then ((E_OUTOFMEMORY, 0), tables)
      else ((S_OK, token), tables.defineType token name flags known)
    | .DefineMethod typeDef name _ _ _ =>
      let token := UInt32.ofNat (0x06000001 + tables.methods.length)
      if token ∈ tables.methods then ((E_OUTOFMEMORY, 0), tables)
      else ((S_OK, token), tables.defineMethod typeDef token name)
    | .DefineField _ _ _ _ => ((S_OK, 0x04000001), tables)
    | .DefinePinvokeMap _ _ _ => (S_OK, tables)
    | .DefineParam _ _ _ _ => ((S_OK, 0x08000001), tables)
    | .SetFieldMarshal _ _ => (S_OK, tables)
    | .GetTickCount => (tickCount, tables)
  platform := Ecma335.platform
  CorSigCompressToken _ := [0x49]
  CorSigUncompressData data := (1, (data 0).toNat)

theorem Enumeration.flatten_ofTokens {cMax : Nat} (room : 0 < cMax) (tokens : List mdToken) :
    (Enumeration.ofTokens cMax tokens).batches.flatten = tokens := by
  have batches : (Enumeration.ofTokens cMax tokens).batches = tokens.map ([·]) := if_pos room
  rw [batches, ← List.flatMap_def]
  exact List.flatMap_singleton' tokens

theorem tableRuntime_defines (assemblyName : WString) (tickCount : UInt32) :
    Defines (tableRuntime assemblyName tickCount) Tables.toMetadata where
  typeDefs _ := Enumeration.flatten_ofTokens (by decide) _
  typeDefsEnd _ := rfl
  methodDefs tables type member := by
    refine (Enumeration.flatten_ofTokens (by decide) _).trans ?_
    rw [Tables.find_eq member]
    rfl
  methodDefsEnd _ _ _ := rfl
  typeProps tables type member := by
    change (tables.find type.token).elim _ _ = _
    rw [Tables.find_eq member]
    rfl
  nested tables type member token enclosing := by
    dsimp only [tableRuntime]
    rw [Tables.find_eq member, Option.bind_some, Option.mem_def.mp enclosing]
    exact ⟨(by decide : ¬FAILED S_OK), rfl⟩
  topLevel tables type member none := by
    dsimp only [tableRuntime]
    rw [Tables.find_eq member, Option.bind_some, none]
    exact (by decide : FAILED CLDB_E_RECORD_NOTFOUND)
  methodProps _ _ _ := ⟨(by decide : ¬FAILED S_OK), rfl⟩
  keeps request tables same := by cases request <;> first | rfl | cases same
  typeDef name flags base tables found := by
    dsimp only [tableRuntime] at found ⊢
    split at found
    · exact absurd (show FAILED E_OUTOFMEMORY by decide) found
    · rename_i fresh
      rw [dif_neg fresh]
      exact ⟨fresh, rfl⟩
  method typeDef name flags signature implFlags tables found := by
    dsimp only [tableRuntime] at found ⊢
    split at found
    · exact absurd (show FAILED E_OUTOFMEMORY by decide) found
    · rename_i fresh
      rw [if_neg fresh]
      exact ⟨fresh, rfl⟩

end Tables

end ClrProfiling
