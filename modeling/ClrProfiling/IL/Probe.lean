import ClrProfiling.IL.Rewriter

/-! The probes of `InjectEnterExitHooks`: a call in front of the first instruction, and
one in front of every RET. -/

namespace ClrProfiling

open LinkedRing Word

def mdTokenNil : UInt32 := 0

/-- The hooks a caller asks for; `hookArg` is the token the hooks are called with, if any. -/
structure Hooks where
  onEnterHook : UInt32
  onExitHook : UInt32
  hookArg : Option UInt64
deriving DecidableEq, Repr

namespace ILRewriter

/-- `ldc.i4 hookArg` where there is an argument, then `call hookMethod`. -/
def AddProbe (platform : Platform) (s : ILRewriter) (hookMethod : UInt32) (hookArg : Option UInt64)
    (pInsertProbeBeforeThisInstr : Ptr) : ILRewriter :=
  let s :=
    match hookArg with
    | none => s
    | some argument =>
      let (pNewInstr, s) := s.NewILInstr
      let s := s.setOpcode pNewInstr CEE_LDC_I4
      let s := s.setOperand pNewInstr argument.toNat
      s.InsertBefore platform pInsertProbeBeforeThisInstr pNewInstr
  let (pNewInstr, s) := s.NewILInstr
  let s := s.setOpcode pNewInstr CEE_CALL
  let s := s.setOperand pNewInstr hookMethod.toNat
  s.InsertBefore platform pInsertProbeBeforeThisInstr pNewInstr

def AddEnterProbe (platform : Platform) (s : ILRewriter) (onEnterHook : UInt32)
    (hookArg : Option UInt64) : ILRewriter :=
  s.AddProbe platform onEnterHook hookArg (s.m_pNext m_IL)

/-- Turn a RET into a NOP, put a new RET behind it and the probe in between; the loop
goes on behind the new RET. -/
def ExitProbeAt (platform : Platform) (onExitHook : UInt32) (hookArg : Option UInt64)
    (loop : ILRewriter × Bool) (pInstr : Ptr) : Except Failure ((ILRewriter × Bool) × Ptr) :=
  let (s, fAtLeastOneProbeAdded) := loop
  if s.m_opcode pInstr = CEE_RET then
    let s := s.setOpcode pInstr CEE_NOP
    let (pNewRet, s) := s.NewILInstr
    let s := s.setOpcode pNewRet CEE_RET
    let s := s.InsertAfter platform pInstr pNewRet
    let s := s.AddProbe platform onExitHook hookArg pNewRet
    .ok ((s, true), pNewRet)
  else .ok ((s, fAtLeastOneProbeAdded), pInstr)

def AddExitProbe (platform : Platform) (s : ILRewriter) (onExitHook : UInt32)
    (hookArg : Option UInt64) : Except Failure ILRewriter := do
  let (s, fAtLeastOneProbeAdded) ←
    walk (fun (loop : ILRewriter × Bool) => loop.1.links.next) m_IL .outOfFuel
      (ExitProbeAt platform onExitHook hookArg) s.brk (s, false) (s.links.next m_IL)
  if fAtLeastOneProbeAdded then pure s else throw .E_FAIL

/-- The probes `InjectEnterExitHooks` adds between Import and Export. -/
def AddProbes (platform : Platform) (s : ILRewriter) (hooks : Hooks) : Except Failure ILRewriter :=
  let s :=
    if hooks.onEnterHook ≠ mdTokenNil then s.AddEnterProbe platform hooks.onEnterHook hooks.hookArg
    else s
  if hooks.onExitHook ≠ mdTokenNil then s.AddExitProbe platform hooks.onExitHook hooks.hookArg
  else pure s

end ILRewriter

end ClrProfiling
