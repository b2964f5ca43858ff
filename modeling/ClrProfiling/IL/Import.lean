import ClrProfiling.Foundation.LittleEndian
import ClrProfiling.IL.Rewriter

/-! `ILRewriter::Import`: the decode loop, the resolution of branch targets and the
exception clauses. -/

namespace ClrProfiling

open LinkedRing Word

/-- An exception clause in its fat form; `ClassTokenOrFilterOffset` is the union the
flags select from. -/
structure EHInfo where
  Flags : UInt32
  TryOffset : UInt32
  TryLength : UInt32
  HandlerOffset : UInt32
  HandlerLength : UInt32
  ClassTokenOrFilterOffset : UInt32
deriving DecidableEq, Repr

/-- What COR_ILMETHOD_DECODER delivers for a method: header and code lie in one image,
whose size is a DWORD, and the number of clauses comes from a 24-bit section size. -/
structure MethodBody where
  Flags : Nat
  MaxStack : Nat
  LocalVarSigTok : Nat
  Code : List UInt8
  EH : List EHInfo
  maxStack_lt : MaxStack < 2 ^ 16
  inImage : Code.length + 12 < 2 ^ 32
  clauses_le : EH.length ≤ 699050

theorem smallStack_lt : 8 < 2 ^ 16 := by decide

theorem noClauses_le : ([] : List EHInfo).length ≤ 699050 := by decide

def CorILMethod_InitLocals : Nat := 0x0010

/-- Read a little-endian operand of the method's code. -/
def fetch (pIL : List UInt8) (offset width : Nat) : Except Failure Nat :=
  if offset + width ≤ pIL.length then .ok (LittleEndian.decode ((pIL.drop offset).take width))
  else .error .outOfBounds

/-- The opcode at an offset and the offset behind it, two bytes long behind a CEE_PREFIX1. -/
def opcodeAt (pIL : List UInt8) (codeSize startOffset : Nat) : Except Failure (Nat × Nat) := do
  let opcode ← fetch pIL startOffset 1
  let offset := startOffset + 1
  if opcode = CEE_PREFIX1 then
    if offset ≥ codeSize then .error .COR_E_INVALIDPROGRAM
    else do
      let second ← fetch pIL offset 1
      pure (0x100 + second, offset + 1)
  else pure (opcode, offset)

def readOpcode (platform : Platform) (pIL : List UInt8) (codeSize startOffset : Nat) :
    Except Failure (Nat × Nat) := do
  let (opcode, offset) ← opcodeAt pIL codeSize startOffset
  if CEE_PREFIX7 ≤ opcode ∧ opcode ≤ CEE_PREFIX2 then .error .COR_E_INVALIDPROGRAM
  else if opcode ≥ platform.CEE_COUNT then .error .COR_E_INVALIDPROGRAM
  else pure (opcode, offset)

namespace ILRewriter

/-- The inner loop over the targets of a `switch`. -/
def ImportSwitchArgs (platform : Platform) (pIL : List UInt8) (base : Nat) :
    (nTargets : Nat) → ILRewriter → (offset : Nat) → Except Failure (ILRewriter × Nat)
  | 0, s, offset => .ok (s, offset)
  | nTargets + 1, s, offset =>
    if offset + 4 > s.m_CodeSize then .error .COR_E_INVALIDPROGRAM
    else do
      let (pInstr, s) := s.NewILInstr
      let s := s.setOpcode pInstr platform.CEE_SWITCH_ARG
      let relative ← fetch pIL offset 4
      let s := s.setOperand pInstr (wrap32 (base + relative))
      let s := s.InsertBefore platform m_IL pInstr
      ImportSwitchArgs platform pIL base nTargets s (offset + 4)

/-- The operand of a new node, with the nodes behind it where it is a `switch`. A branch
keeps the offset it leads to until all nodes exist. -/
def ImportOperand (platform : Platform) (pIL : List UInt8) (s : ILRewriter) (fBranch : Bool)
    (flags pInstr offset : Nat) : Except Failure (ILRewriter × Bool × Nat) := do
  match flags with
  | 0 => pure (s, fBranch, offset)
  | 1 =>
    let value ← fetch pIL offset 1
    pure (s.setOperand pInstr value, fBranch, offset)
  | 2 =>
    let value ← fetch pIL offset 2
    pure (s.setOperand pInstr value, fBranch, offset)
  | 4 =>
    let value ← fetch pIL offset 4
    pure (s.setOperand pInstr value, fBranch, offset)
  | 8 =>
    let value ← fetch pIL offset 8
    pure (s.setOperand pInstr value, fBranch, offset)
  | 0x11 =>
    let value ← fetch pIL offset 1
    pure (s.setOperand pInstr (wrap32 (offset + 1 + signExtend8 value)), true, offset)
  | 0x14 =>
    let value ← fetch pIL offset 4
    pure (s.setOperand pInstr (wrap32 (offset + 4 + value)), true, offset)
  | 0x20 =>
    if offset + 4 > s.m_CodeSize then .error .COR_E_INVALIDPROGRAM
    else do
      let nTargets ← fetch pIL offset 4
      let s := s.setOperand pInstr nTargets
      let offset := offset + 4
      let base := wrap32 (offset + nTargets * 4)
      let (s, offset) ← s.ImportSwitchArgs platform pIL base nTargets offset
      pure (s, true, offset)
  | _ => pure (s, fBranch, offset)

/-- One turn of the decode loop, from the start of an instruction to the next one. -/
def ImportInstr (platform : Platform) (pIL : List UInt8) (s : ILRewriter) (fBranch : Bool)
    (startOffset : Nat) : Except Failure (ILRewriter × Bool × Nat) := do
  let (opcode, offset) ← readOpcode platform pIL s.m_CodeSize startOffset
  let flags := platform.s_OpCodeFlags opcode
  let size := flags &&& OPCODEFLAGS_SizeMask
  if wrap32 (offset + size) > s.m_CodeSize then .error .COR_E_INVALIDPROGRAM
  else do
    let (pInstr, s) := s.NewILInstr
    let s := s.setOpcode pInstr opcode
    let s := s.InsertBefore platform m_IL pInstr
    let s := { s with m_pOffsetToInstr := Function.update s.m_pOffsetToInstr startOffset pInstr }
    let (s, fBranch, offset) ← s.ImportOperand platform pIL fBranch flags pInstr offset
    pure (s, fBranch, wrap32 (offset + size))

/-- `while (offset < m_CodeSize)`; every turn consumes at least one byte. -/
def ImportLoop (platform : Platform) (pIL : List UInt8) :
    (fuel : Nat) → ILRewriter → (fBranch : Bool) → (offset : Nat) → Except Failure (ILRewriter × Bool)
  | 0, s, fBranch, offset => if offset < s.m_CodeSize then .error .outOfFuel else .ok (s, fBranch)
  | fuel + 1, s, fBranch, offset =>
    if offset < s.m_CodeSize then
      match s.ImportInstr platform pIL fBranch offset with
      | .error failure => .error failure
      | .ok (s, fBranch, offset) => ImportLoop platform pIL fuel s fBranch offset
    else .ok (s, fBranch)

/-- Replace the offset in a control flow instruction by the node found there. -/
def ResolveInstr (platform : Platform) (s : ILRewriter) (pInstr : Ptr) : Except Failure ILRewriter :=
  if platform.s_OpCodeFlags (s.m_opcode pInstr) &&& OPCODEFLAGS_BranchTarget ≠ 0 then
    .ok (s.setOperand pInstr (s.GetInstrFromOffset (s.m_Arg32 pInstr)))
  else .ok s

/-- The offset table with the code end mapped to the sentinel. -/
def ImportStart (s : ILRewriter) : ILRewriter :=
  { s with
    m_pOffsetToInstr := Function.update (fun _ => nullptr) s.m_CodeSize m_IL
    m_opcode := Function.update s.m_opcode m_IL (2 ^ 32 - 1) }

def ImportIL (platform : Platform) (s : ILRewriter) (pIL : List UInt8) : Except Failure ILRewriter := do
  let (s, fBranch) ← s.ImportStart.ImportLoop platform pIL s.m_CodeSize false 0
  if fBranch then forInstrs id (ResolveInstr platform) s
  else pure s

/-- One clause of the table; only the handler end looks behind a pointer. -/
def ImportClause (s : ILRewriter) (ehInfo : EHInfo) : Except Failure EHClause := do
  let handlerEnd ← s.deref (s.GetInstrFromOffset (ehInfo.HandlerOffset + ehInfo.HandlerLength).toNat)
  let isFilter := ehInfo.Flags &&& COR_ILEXCEPTION_CLAUSE_FILTER ≠ 0
  pure {
    m_Flags := ehInfo.Flags
    m_pTryBegin := s.GetInstrFromOffset ehInfo.TryOffset.toNat
    m_pTryEnd := s.GetInstrFromOffset (ehInfo.TryOffset + ehInfo.TryLength).toNat
    m_pHandlerBegin := s.GetInstrFromOffset ehInfo.HandlerOffset.toNat
    m_pHandlerEnd := s.m_pPrev handlerEnd
    m_ClassToken := if isFilter then 0 else ehInfo.ClassTokenOrFilterOffset
    m_pFilter := if isFilter then s.GetInstrFromOffset ehInfo.ClassTokenOrFilterOffset.toNat else nullptr }

def ImportEH (s : ILRewriter) (pILEH : List EHInfo) : Except Failure ILRewriter := do
  let m_pEH ← pILEH.mapM s.ImportClause
  pure { s with m_pEH }

/-- The rewriter with the header fields; `m_flags` keeps the InitLocals bit alone. -/
def ImportHeader (body : MethodBody) : ILRewriter :=
  { ILRewriter.new with
    m_tkLocalVarSig := body.LocalVarSigTok
    m_maxStack := body.MaxStack
    m_flags := body.Flags &&& CorILMethod_InitLocals
    m_CodeSize := body.Code.length }

def Import (platform : Platform) (body : MethodBody) : Except Failure ILRewriter := do
  let s ← (ImportHeader body).ImportIL platform body.Code
  s.ImportEH body.EH

end ILRewriter

end ClrProfiling
