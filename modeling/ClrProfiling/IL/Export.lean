import ClrProfiling.Foundation.Buffer
import ClrProfiling.IL.Import
import ClrProfiling.IL.Probe

/-! `ILRewriter::Export`: a pass that writes opcodes and operands, a pass that patches
displacements and widens short branches out of reach, and the fat method body. -/

namespace ClrProfiling

open LinkedRing Word

def CorILMethod_FatFormat : Nat := 0x0003
def CorILMethod_MoreSects : Nat := 0x0008
def CorILMethod_Sect_EHTable : Nat := 0x01
def CorILMethod_Sect_FatFormat : Nat := 0x40

/-- The fields of IMAGE_COR_ILMETHOD_FAT with the code and the section behind it. -/
structure FatBody where
  Flags : Nat
  Size : Nat
  MaxStack : Nat
  CodeSize : Nat
  LocalVarSigTok : Nat
  Code : List UInt8
  Kind : Nat
  DataSize : Nat
  EH : List EHInfo
deriving DecidableEq, Repr

/-- A write into `m_pOutputBuffer`. -/
def store (buffer : Buffer) (offset : Nat) (bytes : List UInt8) : Except Failure Buffer :=
  match buffer.write offset bytes with
  | some buffer => .ok buffer
  | none => .error .outOfBounds

/-- What the first pass carries from node to node. -/
structure Emission where
  rewriter : ILRewriter
  buffer : Buffer
  offset : Nat
  fBranch : Bool

/-- What the second pass carries from node to node. -/
structure Patching where
  rewriter : ILRewriter
  buffer : Buffer
  switchBase : Nat
  fTryAgain : Bool

namespace ILRewriter

/-- The opcode bytes of a node; internal opcodes have none. -/
def EmitOpcode (platform : Platform) (opcode : Nat) (buffer : Buffer) (offset : Nat) :
    Except Failure (Buffer × Nat) := do
  if opcode < platform.CEE_COUNT then
    let (buffer, offset) ←
      if opcode ≥ 0x100 then do
        let buffer ← store buffer offset [UInt8.ofNat CEE_PREFIX1]
        pure (buffer, wrap32 (offset + 1))
      else pure (buffer, offset)
    let buffer ← store buffer offset [UInt8.ofNat (opcode % 256)]
    pure (buffer, wrap32 (offset + 1))
  else pure (buffer, offset)

/-- The operand bytes of a node; displacements are left to the second pass. -/
def EmitOperand (s : ILRewriter) (flags : Nat) (pInstr : Ptr) (buffer : Buffer) (offset : Nat)
    (fBranch : Bool) : Except Failure (Buffer × Nat × Bool) := do
  match flags with
  | 0 => pure (buffer, offset, fBranch)
  | 1 =>
    let buffer ← store buffer offset (LittleEndian.encode 1 (s.m_Arg8 pInstr))
    pure (buffer, offset, fBranch)
  | 2 =>
    let buffer ← store buffer offset (LittleEndian.encode 2 (s.m_Arg16 pInstr))
    pure (buffer, offset, fBranch)
  | 4 =>
    let buffer ← store buffer offset (LittleEndian.encode 4 (s.m_Arg32 pInstr))
    pure (buffer, offset, fBranch)
  | 8 =>
    let buffer ← store buffer offset (LittleEndian.encode 8 (s.m_Arg64 pInstr))
    pure (buffer, offset, fBranch)
  | 0x11 => pure (buffer, offset, true)
  | 0x14 => pure (buffer, offset, true)
  | 0x20 =>
    let buffer ← store buffer offset (LittleEndian.encode 4 (s.m_Arg32 pInstr))
    pure (buffer, wrap32 (offset + 4), fBranch)
  | _ => pure (buffer, offset, fBranch)

/-- One turn of the first pass. -/
def EmitInstr (platform : Platform) (loop : Emission) (pInstr : Ptr) : Except Failure Emission := do
  let s := loop.rewriter.setOffset pInstr loop.offset
  let opcode := s.m_opcode pInstr
  let flags := platform.s_OpCodeFlags opcode
  let (buffer, offset) ← EmitOpcode platform opcode loop.buffer loop.offset
  let (buffer, offset, fBranch) ← s.EmitOperand flags pInstr buffer offset loop.fBranch
  pure { rewriter := s, buffer, offset := wrap32 (offset + (flags &&& OPCODEFLAGS_SizeMask)), fBranch }

/-- A patch ends where the next instruction starts. -/
def slotBefore (offset width : Nat) : Except Failure Nat :=
  if width ≤ offset then .ok (offset - width) else .error .outOfBounds

/-- The long counterpart of a short branch. -/
def widened (opcode : Nat) : Nat :=
  if opcode = CEE_LEAVE_S then CEE_LEAVE else opcode - CEE_BR_S + CEE_BR

/-- One turn of the second pass. -/
def PatchInstr (platform : Platform) (loop : Patching) (pInstr : Ptr) : Except Failure Patching := do
  let s := loop.rewriter
  let opcode := s.m_opcode pInstr
  if opcode = CEE_SWITCH then
    pure { loop with switchBase := wrap32 (s.m_offset pInstr + 1 + 4 * (s.m_Arg32 pInstr + 1)) }
  else if opcode = platform.CEE_SWITCH_ARG then
    let target ← s.deref (s.m_pTarget pInstr)
    let buffer ← store loop.buffer (s.m_offset pInstr)
      (LittleEndian.encode 4 (sub32 (s.m_offset target) loop.switchBase))
    pure { loop with buffer }
  else
    let flags := platform.s_OpCodeFlags opcode
    if flags &&& OPCODEFLAGS_BranchTarget ≠ 0 then
      let target ← s.deref (s.m_pTarget pInstr)
      let next := s.m_offset (s.m_pNext pInstr)
      let delta := sub32 (s.m_offset target) next
      match flags with
      | 0x11 =>
        if fitsInt8 delta then
          let slot ← slotBefore next 1
          let buffer ← store loop.buffer slot (LittleEndian.encode 1 delta)
          pure { loop with buffer }
        else pure { loop with rewriter := s.setOpcode pInstr (widened opcode), fTryAgain := true }
      | 0x14 =>
        let slot ← slotBefore next 4
        let buffer ← store loop.buffer slot (LittleEndian.encode 4 delta)
        pure { loop with buffer }
      | _ => pure loop
    else pure loop

/-- The first pass over the whole list. -/
def EmitPass (platform : Platform) (s : ILRewriter) (buffer : Buffer) : Except Failure Emission := do
  let pass ← forInstrs Emission.rewriter (EmitInstr platform) { rewriter := s, buffer, offset := 0, fBranch := false }
  pure { pass with rewriter := pass.rewriter.setOffset m_IL pass.offset }

/-- The second pass over the whole list. -/
def PatchPass (platform : Platform) (pass : Emission) : Except Failure Patching :=
  forInstrs Patching.rewriter (PatchInstr platform)
    { rewriter := pass.rewriter, buffer := pass.buffer, switchBase := 0, fTryAgain := false }

/-- The `again` loop: the final list, the buffer, the code size and the number of passes. -/
def Again (platform : Platform) : (fuel : Nat) → ILRewriter → Buffer → (passes : Nat) →
    Except Failure (ILRewriter × Buffer × Nat × Nat)
  | 0, _, _, _ => .error .outOfFuel
  | fuel + 1, s, buffer, passes => do
    let pass ← s.EmitPass platform buffer
    if pass.fBranch then
      let patched ← PatchPass platform pass
      if patched.fTryAgain then Again platform fuel patched.rewriter patched.buffer (passes + 1)
      else pure (patched.rewriter, patched.buffer, pass.offset, passes + 1)
    else pure (pass.rewriter, pass.buffer, pass.offset, passes + 1)

/-- A clause with the offsets and lengths of its current nodes. -/
def ExportClause (s : ILRewriter) (pSrc : EHClause) : Except Failure EHInfo := do
  let tryBegin ← s.deref pSrc.m_pTryBegin
  let tryEnd ← s.deref pSrc.m_pTryEnd
  let handlerBegin ← s.deref pSrc.m_pHandlerBegin
  let handlerEnd ← s.deref pSrc.m_pHandlerEnd
  let tokenOrFilter ←
    if pSrc.m_Flags &&& COR_ILEXCEPTION_CLAUSE_FILTER = 0 then pure pSrc.m_ClassToken
    else do
      let filter ← s.deref pSrc.m_pFilter
      pure (UInt32.ofNat (s.m_offset filter))
  pure {
    Flags := pSrc.m_Flags
    TryOffset := UInt32.ofNat (s.m_offset tryBegin)
    TryLength := UInt32.ofNat (sub32 (s.m_offset tryEnd) (s.m_offset tryBegin))
    HandlerOffset := UInt32.ofNat (s.m_offset handlerBegin)
    HandlerLength := UInt32.ofNat (sub32 (s.m_offset (s.m_pNext handlerEnd)) (s.m_offset handlerBegin))
    ClassTokenOrFilterOffset := tokenOrFilter }

/-- The rewriter as Export leaves it, the body handed to SetILFunctionBody and the
number of passes of the `again` loop. -/
structure Exported where
  rewriter : ILRewriter
  body : FatBody
  passes : Nat

/-- The fat header and the section behind the code. Bit fields keep the low bits of
what is assigned to them: twelve of `Flags`, sixteen of `MaxStack`, 24 of `DataSize`. -/
def ExportBody (s : ILRewriter) (code : List UInt8) : Except Failure FatBody := do
  let clauses ← s.m_pEH.mapM s.ExportClause
  let m_nEH := s.m_pEH.length
  pure {
    Flags := (s.m_flags ||| (if m_nEH ≠ 0 then CorILMethod_MoreSects else 0) ||| CorILMethod_FatFormat) % 2 ^ 12
    Size := 12 / 4
    MaxStack := s.m_maxStack % 2 ^ 16
    CodeSize := code.length
    LocalVarSigTok := s.m_tkLocalVarSig
    Code := code
    Kind := if m_nEH ≠ 0 then CorILMethod_Sect_EHTable ||| CorILMethod_Sect_FatFormat else 0
    DataSize := if m_nEH ≠ 0 then wrap32 (4 + 24 * m_nEH) % 2 ^ 24 else 0
    EH := clauses }

/-- `new BYTE[m_nInstrs * 10]`, with the product in 32 bits. -/
def outputBuffer (platform : Platform) (s : ILRewriter) : Buffer where
  size := wrap32 (s.m_nInstrs * 10)
  byte := platform.uninitialised

def Export (platform : Platform) (s : ILRewriter) : Except Failure Exported := do
  let (rewriter, buffer, offset, passes) ← Again platform s.brk s (s.outputBuffer platform) 0
  let body ← rewriter.ExportBody (buffer.read 0 offset)
  pure { rewriter, body, passes }

end ILRewriter

def InjectEnterExitHooks (platform : Platform) (body : MethodBody) (hooks : Hooks) :
    Except Failure ILRewriter.Exported := do
  let rewriter ← ILRewriter.Import platform body
  let rewriter ← rewriter.AddProbes platform hooks
  rewriter.Export platform

/-- The part in front of the memory for the new body: the list as the last pass leaves it, and the code. -/
def Rewrite (platform : Platform) (body : MethodBody) (hooks : Hooks) : Except Failure (ILRewriter × List UInt8) := do
  let rewriter ← ILRewriter.Import platform body
  let rewriter ← rewriter.AddProbes platform hooks
  let (rewriter, buffer, offset, _) ←
    ILRewriter.Again platform rewriter.brk rewriter (rewriter.outputBuffer platform) 0
  pure (rewriter, buffer.read 0 offset)

end ClrProfiling
