import Mathlib

/-! Text in the two Unicode encodings, and how their lengths compare. -/

namespace Unicode

def utf8 (text : List Char) : List UInt8 := text.flatMap String.utf8EncodeChar

/-- One unit, or a surrogate pair for what lies behind the first plane. -/
def utf16EncodeChar (char : Char) : List UInt16 :=
  if char.toNat < 0x10000 then [UInt16.ofNat char.toNat]
  else
    let offset := char.toNat - 0x10000
    [UInt16.ofNat (0xD800 + offset / 0x400), UInt16.ofNat (0xDC00 + offset % 0x400)]

def utf16 (text : List Char) : List UInt16 := text.flatMap utf16EncodeChar

def Ascii (text : List Char) : Prop := ∀ char ∈ text, char.toNat < 0x80

instance (text : List Char) : Decidable (Ascii text) := inferInstanceAs (Decidable (∀ char ∈ text, _))

variable {char : Char} {text : List Char}

theorem utf8EncodeChar_ascii (ascii : char.toNat < 0x80) : String.utf8EncodeChar char = [UInt8.ofNat char.toNat] :=
  if_pos (Nat.le_of_lt_succ ascii)

theorem utf16EncodeChar_ascii (ascii : char.toNat < 0x80) : utf16EncodeChar char = [UInt16.ofNat char.toNat] :=
  if_pos (by omega)

private theorem utf8Size_of_not_ascii (other : ¬char.toNat < 0x80) : 2 ≤ char.utf8Size ∧
    (¬char.toNat < 0x10000 → char.utf8Size = 4) := by
  have one : ¬char.val ≤ 0x7F := by
    rw [UInt32.le_iff_toNat_le]
    exact fun small => other (Nat.lt_succ_of_le small)
  have three : char.val ≤ 0xFFFF → char.toNat < 0x10000 := by
    rw [UInt32.le_iff_toNat_le]
    exact Nat.lt_succ_of_le
  unfold Char.utf8Size
  simp only [UInt32.reduceOfNatLT, if_neg one]
  split
  · rename_i two
    refine ⟨Nat.le_refl 2, fun far => absurd (three (UInt32.le_trans two (by decide))) far⟩
  · split
    · rename_i small
      exact ⟨by decide, fun far => absurd (three small) far⟩
    · exact ⟨by decide, fun _ => rfl⟩

theorem length_utf16EncodeChar_lt (other : ¬char.toNat < 0x80) :
    (utf16EncodeChar char).length < (String.utf8EncodeChar char).length := by
  obtain ⟨two, four⟩ := utf8Size_of_not_ascii other
  rw [String.length_utf8EncodeChar]
  unfold utf16EncodeChar
  split
  · exact two
  · rename_i far
    rw [four far]
    exact (by decide : 2 < 4)

/-- Text has as many units as bytes if it is ASCII, and fewer otherwise. -/
theorem length_utf16 (text : List Char) : (utf16 text).length ≤ (utf8 text).length ∧
    ((utf16 text).length = (utf8 text).length → Ascii text) := by
  induction text with
  | nil => exact ⟨Nat.le_refl 0, fun _ => by simp [Ascii]⟩
  | cons char rest ih =>
    obtain ⟨shorter, equal⟩ := ih
    simp only [utf16, utf8] at shorter equal
    simp only [utf16, utf8, List.flatMap_cons, List.length_append]
    by_cases ascii : char.toNat < 0x80
    · rw [utf8EncodeChar_ascii ascii, utf16EncodeChar_ascii ascii, List.length_singleton, List.length_singleton]
      exact ⟨by omega, fun same => List.forall_mem_cons.mpr ⟨ascii, equal (by omega)⟩⟩
    · have less := length_utf16EncodeChar_lt ascii
      exact ⟨by omega, fun same => absurd same (by omega)⟩

theorem utf8_ascii (ascii : Ascii text) : utf8 text = text.map fun char => UInt8.ofNat char.toNat := by
  induction text with
  | nil => rfl
  | cons char rest ih =>
    obtain ⟨first, others⟩ := List.forall_mem_cons.mp ascii
    rw [utf8, List.flatMap_cons, utf8EncodeChar_ascii first, List.map_cons, ← ih others]
    rfl

theorem utf16_ascii (ascii : Ascii text) : utf16 text = text.map fun char => UInt16.ofNat char.toNat := by
  induction text with
  | nil => rfl
  | cons char rest ih =>
    obtain ⟨first, others⟩ := List.forall_mem_cons.mp ascii
    rw [utf16, List.flatMap_cons, utf16EncodeChar_ascii first, List.map_cons, ← ih others]
    rfl

/-- ASCII text is told apart by its bytes. -/
theorem utf8_injective_ascii {other : List Char} (ascii : Ascii text) (ascii' : Ascii other)
    (same : utf8 text = utf8 other) : text = other := by
  rw [utf8_ascii ascii, utf8_ascii ascii'] at same
  induction text generalizing other with
  | nil =>
    rw [List.map_nil, eq_comm, List.map_eq_nil_iff] at same
    exact same.symm
  | cons char rest ih =>
    cases other with
    | nil => simp at same
    | cons char' rest' =>
      obtain ⟨first, others⟩ := List.forall_mem_cons.mp ascii
      obtain ⟨first', others'⟩ := List.forall_mem_cons.mp ascii'
      rw [List.map_cons, List.map_cons, List.cons.injEq] at same
      have equal : char.toNat = char'.toNat := by
        have bytes := congrArg UInt8.toNat same.1
        simp only [UInt8.toNat_ofNat'] at bytes
        omega
      rw [Char.toNat_inj.mp equal, ih others others' same.2]

end Unicode
