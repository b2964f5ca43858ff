import ClrProfiling.Foundation.Word

/-! The opcode space of the rewriter. The table itself comes from the SDK's
opcode.def; what the rewriter derives from it is computed here. -/

namespace ClrProfiling

/-- The `args` column of opcode.def. -/
inductive OperandKind where
  | InlineNone | ShortInlineVar | InlineVar | ShortInlineI | InlineI | InlineI8
  | ShortInlineR | InlineR | ShortInlineBrTarget | InlineBrTarget | InlineMethod
  | InlineField | InlineType | InlineString | InlineSig | InlineRVA | InlineTok | InlineSwitch
deriving DecidableEq, Repr

/-- The `push` column of opcode.def, one entry for each summand. -/
inductive StackPush where
  | Push0 | Push1 | PushI | PushI4 | PushR4 | PushI8 | PushR8 | PushRef | VarPush
deriving DecidableEq, Repr

def OPCODEFLAGS_SizeMask : Nat := 0x0F
def OPCODEFLAGS_BranchTarget : Nat := 0x10
def OPCODEFLAGS_Switch : Nat := 0x20

/-- The `#define`s in front of `s_OpCodeFlags`. -/
def OperandKind.flags : OperandKind → Nat
  | InlineNone => 0
  | ShortInlineVar => 1
  | InlineVar => 2
  | ShortInlineI => 1
  | InlineI => 4
  | InlineI8 => 8
  | ShortInlineR => 4
  | InlineR => 8
  | ShortInlineBrTarget => 1 ||| OPCODEFLAGS_BranchTarget
  | InlineBrTarget => 4 ||| OPCODEFLAGS_BranchTarget
  | InlineMethod => 4
  | InlineField => 4
  | InlineType => 4
  | InlineString => 4
  | InlineSig => 4
  | InlineRVA => 4
  | InlineTok => 4
  | InlineSwitch => 0 ||| OPCODEFLAGS_Switch

/-- The `#define`s in front of `k_rgnStackPushes`. -/
def StackPush.slots : StackPush → Nat
  | Push0 => 0
  | Push1 => 1
  | PushI => 1
  | PushI4 => 1
  | PushR4 => 1
  | PushI8 => 1
  | PushR8 => 1
  | PushRef => 1
  | VarPush => 1

abbrev CEE_NOP : Nat := 0x00
abbrev CEE_LDC_I4_0 : Nat := 0x16
abbrev CEE_LDC_I4 : Nat := 0x20
abbrev CEE_LDC_I8 : Nat := 0x21
abbrev CEE_POP : Nat := 0x26
abbrev CEE_CALL : Nat := 0x28
abbrev CEE_CALLI : Nat := 0x29
abbrev CEE_RET : Nat := 0x2A
abbrev CEE_BR_S : Nat := 0x2B
abbrev CEE_BRTRUE_S : Nat := 0x2D
abbrev CEE_BLT_UN_S : Nat := 0x37
abbrev CEE_BR : Nat := 0x38
abbrev CEE_BLT_UN : Nat := 0x44
abbrev CEE_SWITCH : Nat := 0x45
abbrev CEE_CALLVIRT : Nat := 0x6F
abbrev CEE_LEAVE : Nat := 0xDD
abbrev CEE_LEAVE_S : Nat := 0xDE
abbrev CEE_PREFIX7 : Nat := 0xF8
abbrev CEE_PREFIX2 : Nat := 0xFD
abbrev CEE_PREFIX1 : Nat := 0xFE

/-- opcode.def as the rewriter relies on it: one-byte opcodes at their byte value,
two-byte opcodes from 0x100 on, and what ECMA-335 gives to branches, `switch` and the
four opcodes the probes are made of. -/
structure OpcodeDef where
  CEE_COUNT : Nat
  args : Nat → OperandKind
  push : Nat → List StackPush
  /-- The `ctrl` column, read as: control may reach the next instruction. -/
  fallsThrough : Nat → Bool
  onePage : 0x100 ≤ CEE_COUNT
  args_short : ∀ opcode < CEE_COUNT, args opcode = .ShortInlineBrTarget ↔
    CEE_BR_S ≤ opcode ∧ opcode ≤ CEE_BLT_UN_S ∨ opcode = CEE_LEAVE_S
  args_long : ∀ opcode < CEE_COUNT, args opcode = .InlineBrTarget ↔
    CEE_BR ≤ opcode ∧ opcode ≤ CEE_BLT_UN ∨ opcode = CEE_LEAVE
  args_switch : ∀ opcode < CEE_COUNT, args opcode = .InlineSwitch ↔ opcode = CEE_SWITCH
  args_nop : args CEE_NOP = .InlineNone
  args_ret : args CEE_RET = .InlineNone
  args_ldc_i4 : args CEE_LDC_I4 = .InlineI
  args_call : args CEE_CALL = .InlineMethod
  push_ldc_i4 : push CEE_LDC_I4 = [.PushI]
  push_call : push CEE_CALL = [.VarPush]
  nop_falls : fallsThrough CEE_NOP = true
  ldc_i4_falls : fallsThrough CEE_LDC_I4 = true
  call_falls : fallsThrough CEE_CALL = true
  ret_leaves : fallsThrough CEE_RET = false

/-- What a build adds to the sources: opcode.def, the memory behind `k_rgnStackPushes`
and the bytes of storage nobody has written yet. -/
structure Platform extends OpcodeDef where
  strayPushes : Nat → Nat
  uninitialised : Nat → UInt8

/-- The internal opcode of the nodes behind a `switch`. -/
def OpcodeDef.CEE_SWITCH_ARG (defs : OpcodeDef) : Nat := defs.CEE_COUNT + 1

def OpcodeDef.s_OpCodeFlags (defs : OpcodeDef) (opcode : Nat) : Nat :=
  if opcode < defs.CEE_COUNT then (defs.args opcode).flags
  else if opcode = defs.CEE_SWITCH_ARG then 4 ||| OPCODEFLAGS_BranchTarget
  else 0

/-- The table has `CEE_COUNT` entries; an index behind them reads what lies there. -/
def Platform.k_rgnStackPushes (platform : Platform) (opcode : Nat) : Nat :=
  if opcode < platform.CEE_COUNT then ((platform.push opcode).map StackPush.slots).sum
  else platform.strayPushes opcode

/-- The opcodes ImportIL lets through: two-byte ones below `CEE_COUNT`, one-byte ones
other than the prefix bytes. -/
def OpcodeDef.Importable (defs : OpcodeDef) (opcode : Nat) : Prop :=
  opcode < defs.CEE_COUNT ∧ opcode < 0x200 ∧ opcode ≠ CEE_PREFIX1 ∧
    ¬(CEE_PREFIX7 ≤ opcode ∧ opcode ≤ CEE_PREFIX2)

instance (defs : OpcodeDef) (opcode : Nat) : Decidable (defs.Importable opcode) :=
  inferInstanceAs (Decidable (_ ∧ _))

theorem OperandKind.flags_eq_short (kind : OperandKind) :
    kind.flags = 0x11 ↔ kind = .ShortInlineBrTarget := by
  cases kind <;> decide

theorem OperandKind.flags_eq_long (kind : OperandKind) :
    kind.flags = 0x14 ↔ kind = .InlineBrTarget := by
  cases kind <;> decide

theorem OperandKind.flags_eq_switch (kind : OperandKind) :
    kind.flags = 0x20 ↔ kind = .InlineSwitch := by
  cases kind <;> decide

theorem OperandKind.flags_cases (kind : OperandKind) :
    kind.flags ∈ [0, 1, 2, 4, 8, 0x11, 0x14, 0x20] := by
  cases kind <;> decide

section Flags

variable (defs : OpcodeDef)

theorem OpcodeDef.flags_of_lt (below : opcode < defs.CEE_COUNT) :
    defs.s_OpCodeFlags opcode = (defs.args opcode).flags :=
  if_pos below

theorem OpcodeDef.flags_switchArg : defs.s_OpCodeFlags defs.CEE_SWITCH_ARG = 0x14 := by
  simp [s_OpCodeFlags, CEE_SWITCH_ARG, OPCODEFLAGS_BranchTarget]

theorem OpcodeDef.flags_cases (opcode : Nat) :
    defs.s_OpCodeFlags opcode ∈ [0, 1, 2, 4, 8, 0x11, 0x14, 0x20] := by
  unfold s_OpCodeFlags
  split
  · exact OperandKind.flags_cases _
  · split <;> decide

theorem OpcodeDef.flags_short (below : opcode < defs.CEE_COUNT) :
    defs.s_OpCodeFlags opcode = 0x11 ↔
      CEE_BR_S ≤ opcode ∧ opcode ≤ CEE_BLT_UN_S ∨ opcode = CEE_LEAVE_S := by
  rw [defs.flags_of_lt below, OperandKind.flags_eq_short, defs.args_short opcode below]

theorem OpcodeDef.flags_long (below : opcode < defs.CEE_COUNT) :
    defs.s_OpCodeFlags opcode = 0x14 ↔
      CEE_BR ≤ opcode ∧ opcode ≤ CEE_BLT_UN ∨ opcode = CEE_LEAVE := by
  rw [defs.flags_of_lt below, OperandKind.flags_eq_long, defs.args_long opcode below]

theorem OpcodeDef.flags_switch (below : opcode < defs.CEE_COUNT) :
    defs.s_OpCodeFlags opcode = 0x20 ↔ opcode = CEE_SWITCH := by
  rw [defs.flags_of_lt below, OperandKind.flags_eq_switch, defs.args_switch opcode below]

private theorem oneByte (small : opcode < 0x100) : opcode < defs.CEE_COUNT :=
  Nat.lt_of_lt_of_le small defs.onePage

theorem OpcodeDef.flags_CEE_SWITCH : defs.s_OpCodeFlags CEE_SWITCH = 0x20 :=
  (defs.flags_switch (oneByte defs (by decide))).mpr rfl

theorem OpcodeDef.flags_CEE_NOP : defs.s_OpCodeFlags CEE_NOP = 0 := by
  rw [defs.flags_of_lt (oneByte defs (by decide)), defs.args_nop]
  rfl

theorem OpcodeDef.flags_CEE_RET : defs.s_OpCodeFlags CEE_RET = 0 := by
  rw [defs.flags_of_lt (oneByte defs (by decide)), defs.args_ret]
  rfl

theorem OpcodeDef.flags_CEE_LDC_I4 : defs.s_OpCodeFlags CEE_LDC_I4 = 4 := by
  rw [defs.flags_of_lt (oneByte defs (by decide)), defs.args_ldc_i4]
  rfl

theorem OpcodeDef.flags_CEE_CALL : defs.s_OpCodeFlags CEE_CALL = 4 := by
  rw [defs.flags_of_lt (oneByte defs (by decide)), defs.args_call]
  rfl

theorem OpcodeDef.switchArg_not_lt : ¬defs.CEE_SWITCH_ARG < defs.CEE_COUNT := by
  simp [CEE_SWITCH_ARG]

theorem OpcodeDef.Importable.ne_switchArg {defs : OpcodeDef} (importable : defs.Importable opcode) :
    opcode ≠ defs.CEE_SWITCH_ARG := by
  intro internal
  exact defs.switchArg_not_lt (internal ▸ importable.1)

theorem OpcodeDef.importable_oneByte (small : opcode < 0xF8) : defs.Importable opcode :=
  ⟨oneByte defs (by omega), by omega, by simp only [CEE_PREFIX1]; omega,
    by simp only [CEE_PREFIX7]; omega⟩

theorem OpcodeDef.switchArg_ne_switch : defs.CEE_SWITCH_ARG ≠ CEE_SWITCH :=
  (defs.importable_oneByte (by decide)).ne_switchArg.symm

theorem Platform.pushes_ldc_i4 (platform : Platform) : platform.k_rgnStackPushes CEE_LDC_I4 = 1 := by
  rw [k_rgnStackPushes, if_pos (oneByte _ (by decide)), platform.push_ldc_i4]
  rfl

theorem Platform.pushes_call (platform : Platform) : platform.k_rgnStackPushes CEE_CALL = 1 := by
  rw [k_rgnStackPushes, if_pos (oneByte _ (by decide)), platform.push_call]
  rfl

end Flags

end ClrProfiling
