import Mathlib

/-! Unsigned 32-bit arithmetic on natural numbers, and the sign extension of a byte. -/

namespace Word

/-- The value a 32-bit unsigned variable keeps. -/
def wrap32 (value : Nat) : Nat := value % 2 ^ 32

/-- Unsigned 32-bit subtraction. -/
def sub32 (left right : Nat) : Nat := wrap32 (left + (2 ^ 32 - right % 2 ^ 32))

/-- The 32-bit pattern of a byte read as a signed number. -/
def signExtend8 (byte : Nat) : Nat := if byte < 128 then byte else byte + (2 ^ 32 - 256)

/-- Whether a 32-bit pattern survives the cast to a signed byte and back. -/
def fitsInt8 (value : Nat) : Bool := signExtend8 (value % 256) == value

theorem wrap32_lt (value : Nat) : wrap32 value < 2 ^ 32 := Nat.mod_lt _ (by decide)

theorem wrap32_of_lt (small : value < 2 ^ 32) : wrap32 value = value := Nat.mod_eq_of_lt small

theorem wrap32_add_left (left right : Nat) : wrap32 (wrap32 left + right) = wrap32 (left + right) := by
  simp [wrap32]

theorem sub32_lt (left right : Nat) : sub32 left right < 2 ^ 32 := wrap32_lt _

/-- A displacement leads from its base back to the target. -/
theorem add_sub32 (target base : Nat) : wrap32 (base + sub32 target base) = wrap32 target := by
  simp only [wrap32, sub32]
  omega

/-- A target determines the displacement that leads to it. -/
theorem sub32_wrap32_add (base displacement : Nat) :
    sub32 (wrap32 (base + displacement)) base = wrap32 displacement := by
  simp only [wrap32, sub32]
  omega

theorem sub32_wrap32_right (left right : Nat) : sub32 left (wrap32 right) = sub32 left right := by
  simp only [sub32, wrap32]
  omega

theorem signExtend8_lt (small : byte < 256) : signExtend8 byte < 2 ^ 32 := by
  unfold signExtend8
  split <;> omega

theorem signExtend8_mod (small : byte < 256) : signExtend8 byte % 256 = byte := by
  unfold signExtend8
  split <;> omega

theorem fitsInt8_signExtend8 (small : byte < 256) : fitsInt8 (signExtend8 byte) = true := by
  simp [fitsInt8, signExtend8_mod small]

theorem fitsInt8_eq (fits : fitsInt8 value = true) : signExtend8 (value % 256) = value :=
  beq_iff_eq.mp fits

theorem fitsInt8_iff (small : value < 2 ^ 32) :
    fitsInt8 value = true ↔ value < 128 ∨ 2 ^ 32 - 128 ≤ value := by
  unfold fitsInt8 signExtend8
  rw [beq_iff_eq]
  split <;> omega

/-- A displacement between positions that fit in 31 bits takes one byte exactly in the range of that byte. -/
theorem fitsInt8_sub32 (target : left < 2 ^ 31) (base : right < 2 ^ 31) :
    fitsInt8 (sub32 left right) = true ↔ -128 ≤ (left : Int) - right ∧ (left : Int) - right ≤ 127 := by
  rw [fitsInt8_iff (sub32_lt left right)]
  simp only [sub32, wrap32]
  omega

end Word
