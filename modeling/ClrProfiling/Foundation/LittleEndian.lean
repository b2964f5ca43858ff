import Mathlib

/-! Little-endian byte strings of a fixed width. -/

namespace LittleEndian

/-- The lowest `width` bytes of a number, least significant first. -/
def encode : (width value : Nat) → List UInt8
  | 0, _ => []
  | width + 1, value => UInt8.ofNat (value % 256) :: encode width (value / 256)

def decode : List UInt8 → Nat
  | [] => 0
  | byte :: rest => byte.toNat + 256 * decode rest

@[simp] theorem length_encode (width value : Nat) : (encode width value).length = width := by
  induction width generalizing value with
  | zero => rfl
  | succ width ih => simp [encode, ih]

theorem decode_encode (width value : Nat) : decode (encode width value) = value % 256 ^ width := by
  induction width generalizing value with
  | zero => simp [encode, decode, Nat.mod_one]
  | succ width ih =>
    have byte : (UInt8.ofNat (value % 256)).toNat = value % 256 :=
      UInt8.toNat_ofNat_of_lt' (Nat.mod_lt _ (by decide))
    rw [encode, decode, ih, byte, pow_succ', Nat.mod_mul]

theorem encode_decode (bytes : List UInt8) : encode bytes.length (decode bytes) = bytes := by
  induction bytes with
  | nil => rfl
  | cons byte rest ih =>
    have bound : byte.toNat < 256 := byte.toNat_lt
    have low : (byte.toNat + 256 * decode rest) % 256 = byte.toNat := by omega
    have high : (byte.toNat + 256 * decode rest) / 256 = decode rest := by omega
    rw [List.length_cons, encode, decode, low, high, ih, UInt8.ofNat_toNat]

theorem decode_lt (bytes : List UInt8) : decode bytes < 256 ^ bytes.length := by
  induction bytes with
  | nil => simp [decode]
  | cons byte rest ih =>
    have bound : byte.toNat < 256 := byte.toNat_lt
    rw [List.length_cons, decode, pow_succ']
    omega

theorem encode_mod (width value : Nat) : encode width (value % 256 ^ width) = encode width value := by
  have same := encode_decode (encode width value)
  rwa [length_encode, decode_encode] at same

end LittleEndian
