import ClrProfiling.Foundation.Unicode
import ClrProfiling.Host.MetadataRegistry

/-! What crosses the boundary between host and server, and the element-wise conversions
of its text. -/

namespace ClrProfiling

open Unicode

section StringUtils

/-- `assign` converts one signed `char` after the other to `wchar_t`. -/
def ToWstring (str : List UInt8) : WString := str.map fun char => char.toInt8.toInt16.toUInt16

/-- `assign` keeps the low byte of every `wchar_t`. -/
def ToString (wstr : WString) : List UInt8 := wstr.map UInt16.toUInt8

end StringUtils

/-- Text fields hold the bytes of the wire format. -/
structure ProfilingConfigMsg where
  shouldProfile : Bool
  namespaceToProfile : List UInt8
  profilerCoreDllPath : List UInt8
deriving DecidableEq, Repr

structure MethodMetadataMsg where
  token : UInt64
  assemblyName : List UInt8
  typeName : List UInt8
  signature : List UInt8
deriving DecidableEq, Repr

structure ProfilingConfig where
  namespaceToProfile : WString
  profilerCoreDllPath : WString
deriving DecidableEq, Repr

namespace IpcClient

/-- The status of the call is not looked at: a failed one leaves the default response. -/
def GetProfilingConfig (reply : Option ProfilingConfigMsg) : ProfilingConfig :=
  let response := reply.getD ⟨false, [], []⟩
  { namespaceToProfile := ToWstring response.namespaceToProfile
    profilerCoreDllPath := ToWstring response.profilerCoreDllPath }

/-- The request sent for a method. -/
def RegisterMethod (method : MethodMetadata) : MethodMetadataMsg where
  token := method.token
  assemblyName := ToString method.assemblyName
  typeName := ToString method.typeName
  signature := ToString method.signature

end IpcClient

/-- Text arrives on either side as it was sent from the other. -/
structure TextSurvives (text : List Char) : Prop where
  toHost : ToWstring (utf8 text) = utf16 text
  toServer : ToString (utf16 text) = utf8 text

section Text

variable {text other : List Char}

private theorem toWstring_ascii (ascii : Ascii text) : ToWstring (utf8 text) = utf16 text := by
  rw [utf8_ascii ascii, utf16_ascii ascii, ToWstring, List.map_map]
  apply List.map_congr_left
  intro char member
  have small := ascii char member
  rw [Function.comp_apply, ← UInt16.toNat_inj, UInt16.toNat_ofNat']
  interval_cases char.toNat <;> rfl

private theorem toString_ascii (ascii : Ascii text) : ToString (utf16 text) = utf8 text := by
  rw [utf8_ascii ascii, utf16_ascii ascii, ToString, List.map_map]
  apply List.map_congr_left
  intro char member
  have small := ascii char member
  rw [Function.comp_apply, ← UInt8.toNat_inj, UInt16.toNat_toUInt8, UInt16.toNat_ofNat', UInt8.toNat_ofNat']
  omega

theorem toWstring_iff : ToWstring (utf8 text) = utf16 text ↔ Ascii text := by
  refine ⟨fun same => (length_utf16 text).2 ?_, toWstring_ascii⟩
  rw [← same, ToWstring, List.length_map]

theorem toString_iff : ToString (utf16 text) = utf8 text ↔ Ascii text := by
  refine ⟨fun same => (length_utf16 text).2 ?_, toString_ascii⟩
  rw [← same, ToString, List.length_map]

theorem textSurvives_iff : TextSurvives text ↔ Ascii text :=
  ⟨fun survives => toWstring_iff.mp survives.toHost, fun ascii => ⟨toWstring_iff.mpr ascii, toString_iff.mpr ascii⟩⟩

/-- Text survives the boundary exactly where it is ASCII: as such, in the configuration a
server sends and in the names of a registered method. -/
theorem text_survives_iff (text : List Char) : (TextSurvives text ↔ Ascii text) ∧
    (∀ shouldProfile path, IpcClient.GetProfilingConfig (some ⟨shouldProfile, utf8 text, utf8 path⟩) =
      ⟨utf16 text, utf16 path⟩ ↔ Ascii text ∧ Ascii path) ∧
    (∀ token typeName signature, IpcClient.RegisterMethod ⟨token, utf16 text, utf16 typeName, utf16 signature⟩ =
      ⟨token, utf8 text, utf8 typeName, utf8 signature⟩ ↔ Ascii text ∧ Ascii typeName ∧ Ascii signature) ∧
    (∀ other, Ascii text → Ascii other → (ToString (utf16 text) = ToString (utf16 other) ↔ text = other)) := by
  refine ⟨textSurvives_iff, fun shouldProfile path => ?_, fun token typeName signature =>
    ?_, fun other ascii ascii' => ?_⟩
  · rw [IpcClient.GetProfilingConfig, Option.getD_some, ProfilingConfig.mk.injEq, toWstring_iff, toWstring_iff]
  · rw [IpcClient.RegisterMethod, MethodMetadataMsg.mk.injEq, toString_iff, toString_iff, toString_iff,
      and_iff_right rfl]
  · rw [toString_ascii ascii, toString_ascii ascii']
    exact ⟨utf8_injective_ascii ascii ascii', congrArg utf8⟩

/-- `é` arrives as two other characters, and the names `A` and `Ł` as the same one. -/
theorem accent_garbled : ¬TextSurvives ['é'] ∧ ToWstring (utf8 ['é']) = [0xFFC3, 0xFFA9] ∧
    ToString (utf16 ['A']) = ToString (utf16 ['Ł']) := by
  refine ⟨fun survives => ?_, by decide, by decide⟩
  exact absurd survives.toHost (by decide)

end Text

end ClrProfiling
