import ClrProfiling.Foundation.RingWalk
import ClrProfiling.IL.Opcode

/-! The instruction list of `ILRewriter`: nodes with two link fields, an opcode, an
offset and a union, one map a field over the addresses `new` hands out. -/

namespace ClrProfiling

open LinkedRing Word

/-- Why a call does not come back with S_OK: a failure HRESULT, an access the language
gives no meaning to, or a loop cut off by the model. -/
inductive Failure where
  | E_FAIL
  | COR_E_INVALIDPROGRAM
  | invalidPointer
  | outOfBounds
  | outOfFuel
deriving DecidableEq, Repr

def Failure.isHResult : Failure → Bool
  | E_FAIL => true
  | COR_E_INVALIDPROGRAM => true
  | _ => false

abbrev Ptr := Nat

def nullptr : Ptr := 0

/-- The address of the sentinel `m_IL`. -/
def m_IL : Ptr := 1

def COR_ILEXCEPTION_CLAUSE_FILTER : UInt32 := 0x0001

/-- `m_ClassToken` and `m_pFilter` share their storage; only the one `m_Flags` selects is set. -/
structure EHClause where
  m_Flags : UInt32
  m_pTryBegin : Ptr
  m_pTryEnd : Ptr
  m_pHandlerBegin : Ptr
  m_pHandlerEnd : Ptr
  m_ClassToken : UInt32
  m_pFilter : Ptr
deriving DecidableEq, Repr

/-- `m_operand` is the eight bytes of the union: an argument, or the address `m_pTarget`.
`brk` is the address the next `new ILInstr()` returns. -/
structure ILRewriter where
  links : Links Ptr
  m_opcode : Ptr → Nat
  m_offset : Ptr → Nat
  m_operand : Ptr → Nat
  brk : Ptr
  m_tkLocalVarSig : Nat
  m_maxStack : Nat
  m_flags : Nat
  m_pEH : List EHClause
  m_pOffsetToInstr : Nat → Ptr
  m_CodeSize : Nat
  m_nInstrs : Nat

namespace ILRewriter

def m_pNext (s : ILRewriter) : Ptr → Ptr := s.links.next

def m_pPrev (s : ILRewriter) : Ptr → Ptr := s.links.prev

/-- The constructor: the sentinel points at itself. -/
def new : ILRewriter where
  links := ⟨fun _ => m_IL, fun _ => m_IL⟩
  m_opcode := fun _ => 0
  m_offset := fun _ => 0
  m_operand := fun _ => 0
  brk := m_IL + 1
  m_tkLocalVarSig := 0
  m_maxStack := 0
  m_flags := 0
  m_pEH := []
  m_pOffsetToInstr := fun _ => nullptr
  m_CodeSize := 0
  m_nInstrs := 0

def m_Arg8 (s : ILRewriter) (pInstr : Ptr) : Nat := s.m_operand pInstr % 2 ^ 8

def m_Arg16 (s : ILRewriter) (pInstr : Ptr) : Nat := s.m_operand pInstr % 2 ^ 16

def m_Arg32 (s : ILRewriter) (pInstr : Ptr) : Nat := s.m_operand pInstr % 2 ^ 32

def m_Arg64 (s : ILRewriter) (pInstr : Ptr) : Nat := s.m_operand pInstr % 2 ^ 64

def m_pTarget (s : ILRewriter) (pInstr : Ptr) : Ptr := s.m_operand pInstr

def setOpcode (s : ILRewriter) (pInstr : Ptr) (opcode : Nat) : ILRewriter :=
  { s with m_opcode := Function.update s.m_opcode pInstr opcode }

def setOffset (s : ILRewriter) (pInstr : Ptr) (offset : Nat) : ILRewriter :=
  { s with m_offset := Function.update s.m_offset pInstr offset }

def setOperand (s : ILRewriter) (pInstr : Ptr) (bits : Nat) : ILRewriter :=
  { s with m_operand := Function.update s.m_operand pInstr bits }

/-- `new ILInstr()` is value-initialised; its links are set before they are read. -/
def NewILInstr (s : ILRewriter) : Ptr × ILRewriter :=
  (s.brk, { s with
    brk := s.brk + 1
    m_nInstrs := wrap32 (s.m_nInstrs + 1)
    m_opcode := Function.update s.m_opcode s.brk 0
    m_offset := Function.update s.m_offset s.brk 0
    m_operand := Function.update s.m_operand s.brk 0 })

def AdjustState (platform : Platform) (s : ILRewriter) (pNewInstr : Ptr) : ILRewriter :=
  { s with m_maxStack := wrap32 (s.m_maxStack + platform.k_rgnStackPushes (s.m_opcode pNewInstr)) }

def InsertBefore (platform : Platform) (s : ILRewriter) (pWhere pWhat : Ptr) : ILRewriter :=
  AdjustState platform { s with links := s.links.insertBefore pWhere pWhat } pWhat

def InsertAfter (platform : Platform) (s : ILRewriter) (pWhere pWhat : Ptr) : ILRewriter :=
  AdjustState platform { s with links := s.links.insertAfter pWhere pWhat } pWhat

/-- A position outside the code or inside an instruction gives the null pointer; the
assertion behind the lookup is not compiled into release builds. -/
def GetInstrFromOffset (s : ILRewriter) (offset : Nat) : Ptr :=
  if offset ≤ s.m_CodeSize then s.m_pOffsetToInstr offset else nullptr

/-- Only the sentinel and the nodes `new` has returned can be dereferenced. -/
def deref (s : ILRewriter) (p : Ptr) : Except Failure Ptr :=
  if nullptr < p ∧ p < s.brk then .ok p else .error .invalidPointer

theorem deref_eq_ok {s : ILRewriter} (found : s.deref p = .ok q) : q = p := by
  unfold deref at found
  split at found <;> cases found
  rfl

theorem deref_eq_error {s : ILRewriter} {failure : Failure} (failed : s.deref p = .error failure) :
    failure = .invalidPointer := by
  unfold deref at failed
  split at failed <;> cases failed
  rfl

/-- `for (p = m_IL.m_pNext; p != &m_IL; p = p->m_pNext)`, over any loop state that
holds a rewriter. A ring holds fewer nodes than `new` has returned. -/
def forInstrs {Loop : Type} (rewriter : Loop → ILRewriter) (step : Loop → Ptr → Except Failure Loop)
    (loop : Loop) : Except Failure Loop :=
  forEach (fun loop => (rewriter loop).links.next) m_IL .outOfFuel step
    (rewriter loop).brk loop ((rewriter loop).links.next m_IL)

/-- The node an instruction list starts with, taken with its successors up to the sentinel. -/
def instrsFrom (s : ILRewriter) : Nat → Ptr → List Ptr
  | 0, _ => []
  | fuel + 1, p => if p = m_IL then [] else p :: s.instrsFrom fuel (s.m_pNext p)

/-- The nodes met by following `m_pNext` from the sentinel. -/
def instrs (s : ILRewriter) : List Ptr := s.instrsFrom s.brk (s.m_pNext m_IL)

end ILRewriter

end ClrProfiling
