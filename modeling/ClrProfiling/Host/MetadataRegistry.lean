import Mathlib

/-! The registry of instrumented methods in the host: a counter for tokens, a list of what
was registered and a callback that hears of every registration. -/

namespace ClrProfiling

/-- A `std::wstring` of the host, where `wchar_t` has 16 bits. -/
abbrev WString := List UInt16

structure MethodMetadata where
  token : UInt64
  assemblyName : WString
  typeName : WString
  signature : WString
deriving DecidableEq, Repr

/-- `World` is what the callback acts on. -/
structure MetadataRegistry (World : Type) where
  tokenCounter : UInt64
  methodMetadatas : List MethodMetadata
  methodRegistrationCallback : Option (MethodMetadata → World → World)

namespace MetadataRegistry

variable {World : Type}

def new : MetadataRegistry World := ⟨0, [], none⟩

def SetMethodRegistrationCallback (registry : MetadataRegistry World) (callback : MethodMetadata → World → World) :
    MetadataRegistry World :=
  { registry with methodRegistrationCallback := some callback }

/-- The counter is incremented in one step and wraps around as a 64-bit one does. -/
def RegisterMethod (registry : MetadataRegistry World) (world : World) (assemblyName typeName signature : WString) :
    MethodMetadata × MetadataRegistry World × World :=
  let tokenCounter := registry.tokenCounter + 1
  let metadata : MethodMetadata := ⟨tokenCounter, assemblyName, typeName, signature⟩
  let registry := { registry with tokenCounter, methodMetadatas := registry.methodMetadatas ++ [metadata] }
  let world := match registry.methodRegistrationCallback with
    | some callback => callback metadata world
    | none => world
  (metadata, registry, world)

/-- The arguments of one registration. -/
structure Registration where
  assemblyName : WString
  typeName : WString
  signature : WString
deriving DecidableEq, Repr

/-- One registration behind the other. -/
def RegisterMethods (registry : MetadataRegistry World) (world : World) :
    List Registration → List MethodMetadata × MetadataRegistry World × World
  | [] => ([], registry, world)
  | call :: rest =>
    let (metadata, registry, world) := registry.RegisterMethod world call.assemblyName call.typeName call.signature
    let (others, registry, world) := registry.RegisterMethods world rest
    (metadata :: others, registry, world)

@[simp] theorem RegisterMethod_token (registry : MetadataRegistry World) (world : World)
    (assemblyName typeName signature : WString) :
    (registry.RegisterMethod world assemblyName typeName signature).1.token = registry.tokenCounter + 1 := rfl

@[simp] theorem RegisterMethod_counter (registry : MetadataRegistry World) (world : World)
    (assemblyName typeName signature : WString) :
    (registry.RegisterMethod world assemblyName typeName signature).2.1.tokenCounter = registry.tokenCounter + 1 := rfl

/-- Tokens count the registrations. -/
theorem RegisterMethods_tokens (registry : MetadataRegistry World) (world : World) (calls : List Registration) :
    (registry.RegisterMethods world calls).1.map MethodMetadata.token =
      (List.range calls.length).map fun index => registry.tokenCounter + 1 + UInt64.ofNat index := by
  induction calls generalizing registry world with
  | nil => rfl
  | cons call rest ih =>
    rw [RegisterMethods, List.map_cons, ih, List.length_cons, List.range_succ_eq_map, List.map_cons, List.map_map]
    refine List.cons_eq_cons.mpr ⟨by simp, List.map_congr_left fun index _ => ?_⟩
    simp only [RegisterMethod_counter, Function.comp_apply, Nat.succ_eq_add_one, UInt64.ofNat_add]
    rw [UInt64.add_assoc, UInt64.add_assoc, UInt64.add_assoc, UInt64.add_comm (UInt64.ofNat index)]
    rfl

/-- Every number of 64 bits is the token of some registration. -/
theorem exists_token (token : UInt64) : ∃ calls : List Registration, ∃ metadata ∈
    ((new : MetadataRegistry Unit).RegisterMethods () calls).1, metadata.token = token := by
  let index := (token - 1).toNat
  refine ⟨List.replicate (index + 1) ⟨[], [], []⟩, List.mem_map.mp ?_⟩
  rw [RegisterMethods_tokens, List.length_replicate]
  refine List.mem_map.mpr ⟨index, List.mem_range.mpr (Nat.lt_succ_self index), ?_⟩
  simp only [index, new, UInt64.ofNat_toNat]
  rw [UInt64.zero_add, UInt64.add_comm, UInt64.sub_add_cancel]

end MetadataRegistry

end ClrProfiling
