import ClrProfiling.IL.Opcode

/-! The opcode table of ECMA-335, Partition III, in the order of opcode.def: the
one-byte page, the two-byte page, and the two internal opcodes behind it. -/

namespace ClrProfiling.Ecma335

open OperandKind StackPush

def args : List OperandKind :=
  -- nop to stloc.3, the short variable forms, ldnull to ldc.i4.8
  List.replicate 0x0E InlineNone ++ List.replicate 6 ShortInlineVar ++ List.replicate 0x0B InlineNone ++
  -- ldc.i4.s to ldc.r8, dup and pop, jmp to ret
  [ShortInlineI, InlineI, InlineI8, ShortInlineR, InlineR] ++ List.replicate 3 InlineNone ++
  [InlineMethod, InlineMethod, InlineSig, InlineNone] ++
  -- br.s to blt.un.s, br to blt.un, switch
  List.replicate 13 ShortInlineBrTarget ++ List.replicate 13 InlineBrTarget ++ [InlineSwitch] ++
  -- ldind.i1 to conv.u8, callvirt to isinst, conv.r.un, unbox, throw
  List.replicate 0x29 InlineNone ++
  [InlineMethod, InlineType, InlineType, InlineString, InlineMethod, InlineType, InlineType] ++
  List.replicate 3 InlineNone ++ [InlineType, InlineNone] ++
  -- ldfld to stsfld, stobj, conv.ovf.*.un, box to ldelema
  List.replicate 6 InlineField ++ [InlineType] ++ List.replicate 0x0A InlineNone ++
  [InlineType, InlineType, InlineNone, InlineType] ++
  -- ldelem.i1 to stelem.ref, ldelem, stelem, unbox.any, conv.ovf.*
  List.replicate 0x13 InlineNone ++ [InlineType, InlineType, InlineType] ++ List.replicate 0x1C InlineNone ++
  -- refanyval, ckfinite, mkrefany, ldtoken
  [InlineType] ++ List.replicate 3 InlineNone ++ [InlineType] ++ List.replicate 9 InlineNone ++ [InlineTok] ++
  -- conv.u2 to endfinally, leave, leave.s, stind.i to the prefix bytes
  List.replicate 0x0C InlineNone ++ [InlineBrTarget, ShortInlineBrTarget] ++ List.replicate 0x21 InlineNone ++
  -- arglist to clt.un, ldftn, ldvirtftn, the long variable forms
  List.replicate 6 InlineNone ++ [InlineMethod, InlineMethod, InlineNone] ++ List.replicate 6 InlineVar ++
  -- localloc, endfilter, unaligned. to readonly.
  List.replicate 3 InlineNone ++
  [ShortInlineI, InlineNone, InlineNone, InlineType, InlineType, InlineNone, InlineNone, ShortInlineI,
    InlineNone, InlineNone, InlineType, InlineNone, InlineNone] ++
  List.replicate 6 InlineNone

def push : List StackPush :=
  List.replicate 2 Push0 ++ List.replicate 8 Push1 ++ List.replicate 4 Push0 ++
  [Push1, PushI, Push0, Push1, PushI, Push0, PushRef] ++ List.replicate 12 PushI ++
  [PushI8, PushR4, PushR8, Push0, Push1, Push0, Push0, VarPush, VarPush] ++ List.replicate 28 Push0 ++
  -- ldind.i1 to conv.u8
  List.replicate 6 PushI ++ [PushI8, PushI, PushR4, PushR8, PushRef] ++ List.replicate 7 Push0 ++
  List.replicate 15 Push1 ++ [PushI, PushI, PushI, PushI8, PushR4, PushR8, PushI, PushI8] ++
  -- callvirt to stobj
  [VarPush, Push0, Push1, PushRef, PushRef, PushRef, PushI, PushR8, Push0, Push0, PushI, Push0,
    Push1, PushI, Push0, Push1, PushI, Push0, Push0] ++
  -- conv.ovf.i1.un to ldelema
  [PushI, PushI, PushI, PushI8, PushI, PushI, PushI, PushI8, PushI, PushI, PushRef, PushRef, PushI, PushI] ++
  -- ldelem.i1 to unbox.any
  List.replicate 6 PushI ++ [PushI8, PushI, PushR4, PushR8, PushRef] ++ List.replicate 8 Push0 ++
  [Push1, Push0, Push1] ++ List.replicate 13 Push0 ++
  -- conv.ovf.i1 to ldtoken
  List.replicate 6 PushI ++ [PushI8, PushI8] ++ List.replicate 7 Push0 ++
  [PushI, PushR8, Push0, Push0, Push1] ++ List.replicate 9 Push0 ++ [PushI] ++
  -- conv.u2 to conv.u
  List.replicate 5 PushI ++ List.replicate 6 Push1 ++ List.replicate 4 Push0 ++ [PushI] ++
  List.replicate 31 Push0 ++
  -- the two-byte page
  List.replicate 8 PushI ++ [Push0, Push1, PushI, Push0, Push1, PushI, Push0, PushI] ++
  List.replicate 12 Push0 ++ [PushI, PushI] ++ List.replicate 7 Push0

/-- ret, jmp, the unconditional branches and the instructions that end a block. -/
def leaves : List Nat :=
  [0x27, CEE_RET, CEE_BR_S, CEE_BR, 0x7A, 0xDC, CEE_LEAVE, CEE_LEAVE_S, 0x111, 0x11A]

/-- The table as an opcode.def; `dup` is the one opcode that pushes twice. -/
def opcodes : OpcodeDef where
  CEE_COUNT := 0x125
  args opcode := args.getD opcode InlineNone
  push opcode := if opcode = 0x25 then [Push1, Push1] else [push.getD opcode Push0]
  fallsThrough opcode := !leaves.contains opcode
  onePage := by decide
  args_short := by decide +kernel
  args_long := by decide +kernel
  args_switch := by decide +kernel
  args_nop := by decide
  args_ret := by decide
  args_ldc_i4 := by decide
  args_call := by decide
  push_ldc_i4 := by decide
  push_call := by decide
  nop_falls := by decide
  ldc_i4_falls := by decide
  call_falls := by decide
  ret_leaves := by decide

/-- A build on this table, with zeros in every memory cell outside the model. -/
def platform : Platform := { opcodes with
  strayPushes := fun _ => 0
  uninitialised := fun _ => 0 }

/-- Both columns have an entry for every opcode. -/
example : args.length = opcodes.CEE_COUNT ∧ push.length = opcodes.CEE_COUNT := by decide +kernel

end ClrProfiling.Ecma335
