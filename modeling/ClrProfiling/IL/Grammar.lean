import ClrProfiling.Foundation.Outcome
import ClrProfiling.IL.Import

/-! The instruction grammar of a method body: complete encodings and where they stand in
the code, and the reads of the decoder against it. -/

namespace ClrProfiling

open Word

/-- `bytes` stand in the code at `offset`. -/
def Stands (pIL : List UInt8) (offset : Nat) (bytes : List UInt8) : Prop :=
  ∃ before after, pIL = before ++ bytes ++ after ∧ before.length = offset

theorem Stands.bound (stands : Stands pIL offset bytes) : offset + bytes.length ≤ pIL.length := by
  obtain ⟨before, after, rfl, rfl⟩ := stands
  simp

theorem stands_nil : Stands pIL offset [] ↔ offset ≤ pIL.length := by
  constructor
  · intro stands
    simpa using stands.bound
  · intro bound
    exact ⟨pIL.take offset, pIL.drop offset, by simp, by simpa using bound⟩

theorem stands_append :
    Stands pIL offset (first ++ second) ↔
      Stands pIL offset first ∧ Stands pIL (offset + first.length) second := by
  constructor
  · rintro ⟨before, after, rfl, rfl⟩
    exact ⟨⟨before, second ++ after, by simp, rfl⟩, ⟨before ++ first, after, by simp, by simp⟩⟩
  · rintro ⟨⟨before, after, whole, rfl⟩, ⟨before', after', whole', length⟩⟩
    have lengths : (before ++ first).length = before'.length := by simpa using length.symm
    have same : (before ++ first) ++ after = before' ++ (second ++ after') := by
      rw [← whole, whole', List.append_assoc]
    obtain ⟨rfl, rfl⟩ := List.append_inj same lengths
    exact ⟨before, after', by simpa using whole, rfl⟩

theorem Stands.eq_of_length (first : Stands pIL offset left) (second : Stands pIL offset right)
    (length : left.length = right.length) : left = right := by
  obtain ⟨before, after, rfl, rfl⟩ := first
  obtain ⟨before', after', whole, same⟩ := second
  rw [List.append_assoc, List.append_assoc] at whole
  exact (List.append_inj (List.append_inj whole same.symm).2 length).1

theorem fetch_eq_ok_iff {pIL : List UInt8} :
    fetch pIL offset width = .ok value ↔
      value < 256 ^ width ∧ Stands pIL offset (LittleEndian.encode width value) := by
  constructor
  · intro run
    unfold fetch at run
    split at run
    · rename_i bound
      cases run
      have length : ((pIL.drop offset).take width).length = width := by simp; omega
      have encoded := LittleEndian.encode_decode ((pIL.drop offset).take width)
      have small := LittleEndian.decode_lt ((pIL.drop offset).take width)
      rw [length] at encoded small
      refine ⟨small, pIL.take offset, pIL.drop (offset + width), ?_, by simp; omega⟩
      rw [encoded, List.append_assoc, ← List.drop_drop, List.take_append_drop, List.take_append_drop]
    · cases run
  · rintro ⟨small, stands⟩
    have bound := stands.bound
    obtain ⟨before, after, rfl, rfl⟩ := stands
    rw [LittleEndian.length_encode] at bound
    rw [fetch, if_pos bound, List.append_assoc, List.drop_left,
      List.take_left' (LittleEndian.length_encode width value), LittleEndian.decode_encode,
      Nat.mod_eq_of_lt small]

theorem fetch_of_le {pIL : List UInt8} (bound : offset + width ≤ pIL.length) :
    ∃ value, fetch pIL offset width = .ok value := by
  simp [fetch, bound]

/-- The bytes in front of an operand. -/
def opcodeBytes (opcode : Nat) : List UInt8 :=
  if opcode < 0x100 then LittleEndian.encode 1 opcode
  else LittleEndian.encode 1 CEE_PREFIX1 ++ LittleEndian.encode 1 (opcode - 0x100)

theorem length_opcodeBytes (opcode : Nat) :
    (opcodeBytes opcode).length = if opcode < 0x100 then 1 else 2 := by
  unfold opcodeBytes
  split <;> simp

theorem opcodeAt_eq_ok_iff {pIL : List UInt8} :
    opcodeAt pIL pIL.length startOffset = .ok (opcode, offset) ↔
      opcode < 0x200 ∧ opcode ≠ CEE_PREFIX1 ∧ Stands pIL startOffset (opcodeBytes opcode) ∧
        offset = startOffset + (opcodeBytes opcode).length := by
  unfold opcodeAt
  simp only [Outcome.bind_eq_ok_iff, Outcome.pure_eq, fetch_eq_ok_iff]
  constructor
  · rintro ⟨first, ⟨small, stands⟩, rest⟩
    split at rest
    · rename_i prefixed
      subst prefixed
      obtain ⟨-, rest⟩ := Outcome.guard_eq_ok_iff.mp rest
      simp only [Outcome.bind_eq_ok_iff, fetch_eq_ok_iff] at rest
      obtain ⟨second, ⟨smallSecond, standsSecond⟩, done⟩ := rest
      cases done
      have bytes : opcodeBytes (0x100 + second) =
          LittleEndian.encode 1 CEE_PREFIX1 ++ LittleEndian.encode 1 second := by
        rw [opcodeBytes, if_neg (by omega), Nat.add_sub_cancel_left]
      refine ⟨by omega, by simp only [CEE_PREFIX1]; omega, ?_, by rw [bytes]; simp⟩
      rw [bytes]
      exact stands_append.mpr ⟨stands, by simpa using standsSecond⟩
    · rename_i plain
      cases rest
      have bytes : opcodeBytes opcode = LittleEndian.encode 1 opcode := by
        rw [opcodeBytes, if_pos (by omega)]
      exact ⟨by omega, plain, by rw [bytes]; exact stands, by rw [bytes]; simp⟩
  · rintro ⟨small, plain, stands, rfl⟩
    by_cases one : opcode < 0x100
    · have bytes : opcodeBytes opcode = LittleEndian.encode 1 opcode := if_pos one
      rw [bytes] at stands ⊢
      exact ⟨opcode, ⟨by omega, stands⟩, by simp [plain]⟩
    · have bytes : opcodeBytes opcode =
          LittleEndian.encode 1 CEE_PREFIX1 ++ LittleEndian.encode 1 (opcode - 0x100) := if_neg one
      rw [bytes] at stands ⊢
      obtain ⟨first, second⟩ := stands_append.mp stands
      have bound := second.bound
      rw [LittleEndian.length_encode] at second bound
      refine ⟨CEE_PREFIX1, ⟨by decide, first⟩, ?_⟩
      rw [if_pos rfl, if_neg (by simp at bound; omega)]
      rw [Outcome.bind_eq_ok_iff]
      refine ⟨opcode - 0x100, fetch_eq_ok_iff.mpr ⟨by omega, second⟩, ?_⟩
      have back : 0x100 + (opcode - 0x100) = opcode := by omega
      simp [back]

/-- The opcode check accepts exactly the importable opcodes. -/
theorem readOpcode_eq_ok_iff {platform : Platform} {pIL : List UInt8} :
    readOpcode platform pIL pIL.length startOffset = .ok (opcode, offset) ↔
      platform.Importable opcode ∧ Stands pIL startOffset (opcodeBytes opcode) ∧
        offset = startOffset + (opcodeBytes opcode).length := by
  unfold readOpcode
  simp only [Outcome.bind_eq_ok_iff, Prod.exists]
  constructor
  · rintro ⟨read, behind, run, rest⟩
    obtain ⟨notPrefix, rest⟩ := Outcome.guard_eq_ok_iff.mp rest
    obtain ⟨below, rest⟩ := Outcome.guard_eq_ok_iff.mp rest
    cases rest
    obtain ⟨small, plain, stands, rfl⟩ := opcodeAt_eq_ok_iff.mp run
    exact ⟨⟨Nat.lt_of_not_le below, small, plain, notPrefix⟩, stands, rfl⟩
  · rintro ⟨⟨below, small, plain, notPrefix⟩, stands, rfl⟩
    refine ⟨opcode, _, opcodeAt_eq_ok_iff.mpr ⟨small, plain, stands, rfl⟩, ?_⟩
    rw [if_neg notPrefix, if_neg (Nat.not_le_of_lt below)]
    rfl

/-- A complete instruction. Displacements are relative, as in the code. -/
inductive RawInstr where
  | plain (opcode operand : Nat)
  | switch (targets : List Nat)
deriving DecidableEq, Repr

section Platform

variable (platform : Platform)

/-- Width of the operand behind an opcode; the table of a `switch` is not part of it. -/
def operandWidth (opcode : Nat) : Nat := platform.s_OpCodeFlags opcode &&& OPCODEFLAGS_SizeMask

def RawInstr.opcode : RawInstr → Nat
  | .plain opcode _ => opcode
  | .switch _ => CEE_SWITCH

def RawInstr.operandBytes : RawInstr → List UInt8
  | .plain opcode operand => LittleEndian.encode (operandWidth platform opcode) operand
  | .switch targets => LittleEndian.encode 4 targets.length ++ targets.flatMap (LittleEndian.encode 4)

def RawInstr.bytes (instr : RawInstr) : List UInt8 :=
  opcodeBytes instr.opcode ++ instr.operandBytes platform

/-- An encoding ImportIL has a node for, with every number inside its width. -/
def RawInstr.Valid : RawInstr → Prop
  | .plain opcode operand => platform.Importable opcode ∧ opcode ≠ CEE_SWITCH ∧
      operand < 256 ^ operandWidth platform opcode
  | .switch targets => targets.length < 2 ^ 32 ∧ ∀ target ∈ targets, target < 2 ^ 32

def RawInstr.size (instr : RawInstr) : Nat := (instr.bytes platform).length

/-- A body is a sequence of complete encodings. -/
def listingBytes (instrs : List RawInstr) : List UInt8 := instrs.flatMap (RawInstr.bytes platform)

end Platform

theorem length_targets (targets : List Nat) :
    (targets.flatMap (LittleEndian.encode 4)).length = 4 * targets.length := by
  induction targets with
  | nil => rfl
  | cons target rest ih => simp [ih]; omega

theorem RawInstr.size_pos (platform : Platform) (instr : RawInstr) : 0 < instr.size platform := by
  have opcode := length_opcodeBytes instr.opcode
  simp only [size, bytes, List.length_append]
  split at opcode <;> omega

theorem listingBytes_cons (platform : Platform) (instr : RawInstr) (rest : List RawInstr) :
    listingBytes platform (instr :: rest) = instr.bytes platform ++ listingBytes platform rest :=
  List.flatMap_cons ..

theorem length_listingBytes_cons (platform : Platform) (instr : RawInstr) (rest : List RawInstr) :
    (listingBytes platform (instr :: rest)).length = instr.size platform + (listingBytes platform rest).length := by
  rw [listingBytes_cons, List.length_append, RawInstr.size]

theorem listingBytes_eq_nil {instrs : List RawInstr} (empty : listingBytes platform instrs = []) : instrs = [] := by
  cases instrs with
  | nil => rfl
  | cons instr rest =>
    have positive := instr.size_pos platform
    rw [RawInstr.size, (List.append_eq_nil_iff.mp empty).1] at positive
    exact absurd positive (by simp)

theorem size_plain (platform : Platform) (opcode operand : Nat) :
    (RawInstr.plain opcode operand).size platform =
      (opcodeBytes opcode).length + operandWidth platform opcode := by
  simp [RawInstr.size, RawInstr.bytes, RawInstr.opcode, RawInstr.operandBytes]

theorem size_switch (platform : Platform) (targets : List Nat) :
    (RawInstr.switch targets).size platform = 5 + 4 * targets.length := by
  rw [RawInstr.size, RawInstr.bytes, List.length_append, length_opcodeBytes, RawInstr.operandBytes,
    List.length_append, LittleEndian.length_encode, length_targets]
  have oneByte : (RawInstr.switch targets).opcode < 0x100 := by
    change CEE_SWITCH < 0x100
    decide
  rw [if_pos oneByte]
  omega

end ClrProfiling
