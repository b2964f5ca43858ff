import ClrProfiling.Host.TargetModuleInstrumenter
import ClrProfiling.IL.Edits
import ClrProfiling.IL.Injection

/-! The value a hook is called with: what the probes of an exported body leave on the
evaluation stack, against the parameter that the signature of the hooks declares. -/

namespace ClrProfiling

open LinkedRing Word ILRewriter

section Signature

/-- What the evaluation stack keeps of the integer types. -/
inductive StackType where
  | int32
  | int64
deriving DecidableEq, Repr

def stackType (elementType : UInt8) : Option StackType :=
  if ELEMENT_TYPE_BOOLEAN ≤ elementType ∧ elementType ≤ ELEMENT_TYPE_U4 then some .int32
  else if ELEMENT_TYPE_I8 ≤ elementType ∧ elementType ≤ ELEMENT_TYPE_U8 then some .int64
  else none

/-- The parameters of a signature behind its calling convention, their number and the return type. -/
def parameterTypes (signature : List UInt8) : List (Option StackType) :=
  ((signature.drop 3).take (signature.getD 1 0).toNat).map stackType

end Signature

section Execution

inductive StackValue where
  | int32 (bits : BitVec 32)
  | int64 (bits : BitVec 64)
deriving DecidableEq, Repr

def StackValue.type : StackValue → StackType
  | .int32 _ => .int32
  | .int64 _ => .int64

/-- The 64 bits of a value where a 32-bit one is extended with its sign. -/
def StackValue.extended : StackValue → BitVec 64
  | .int32 bits => bits.signExtend 64
  | .int64 bits => bits

structure HookCall where
  method : Nat
  argument : StackValue
deriving DecidableEq, Repr

/-- The instructions of a probe at work: the calls of hooks with one parameter, and the stack behind them. -/
def execute : List Instr → List StackValue → Option (List HookCall × List StackValue)
  | [], stack => some ([], stack)
  | node :: rest, stack =>
    if node.opcode = CEE_LDC_I4 then execute rest (.int32 (.ofNat 32 node.operand) :: stack)
    else if node.opcode = CEE_CALL then
      match stack with
      | [] => none
      | argument :: stack =>
        (execute rest stack).map fun (calls, stack) => (⟨node.operand % 2 ^ 32, argument⟩ :: calls, stack)
    else none

/-- A probe for `hook` as ImportIL decodes it from an exported body: the nodes that stand
where the probe stood in the list that was exported. -/
def DecodedProbe (platform : Platform) (body : MethodBody) (hooks : Hooks) (result : Exported) (hook : UInt32)
    (probe : List Instr) : Prop :=
  ∃ imported decoded before after brk role,
    Import platform body = .ok imported ∧
    { ILRewriter.new with m_CodeSize := result.body.Code.length }.ImportIL platform result.body.Code = .ok decoded ∧
    probedNodes hooks imported.brk imported.listing =
      before ++ (probeNodes brk hook hooks.hookArg).map (⟨·, role⟩) ++ after ∧
    (role = .enterProbe ∧ hook = hooks.onEnterHook ∨ ∃ ret, role = .exitProbe ret ∧ hook = hooks.onExitHook) ∧
    probe = (decoded.listing.drop before.length).take (probeNodes brk hook hooks.hookArg).length

/-- Every probe of an exported body calls its hook with the token, as a value of the type
the hook has a parameter of. -/
def ReportsToken (platform : Platform) (body : MethodBody) (hooks : Hooks) (result : Exported)
    (token : UInt64) : Prop :=
  ∀ hook probe, DecodedProbe platform body hooks result hook probe → ∀ stack, ∃ argument : StackValue,
    execute probe stack = some ([⟨hook.toNat, argument⟩], stack) ∧
      parameterTypes methodHookSig = [some argument.type] ∧ argument.extended = token.toBitVec

/-- What the probes make of a token. -/
def reported (token : UInt64) : StackValue := .int32 (.ofNat 32 token.toNat)

end Execution

section Tokens

theorem parameterTypes_methodHookSig : parameterTypes methodHookSig = [some .int64] := by decide

/-- Tokens are told apart by their low 32 bits alone. -/
theorem reported_eq_iff (token other : UInt64) : reported token = reported other ↔
    token.toNat ≡ other.toNat [MOD 2 ^ 32] := by
  rw [reported, reported, StackValue.int32.injEq, ← BitVec.toNat_inj, BitVec.toNat_ofNat, BitVec.toNat_ofNat]
  rfl

/-- Extended with its sign, the reported value is the token at both ends of the 64-bit range. -/
theorem extended_reported_iff (token : UInt64) : (reported token).extended = token.toBitVec ↔
    token.toNat < 2 ^ 31 ∨ 2 ^ 64 - 2 ^ 31 ≤ token.toNat := by
  have small := token.toNat_lt
  have bits : token.toBitVec.toNat = token.toNat := rfl
  rw [reported, StackValue.extended, ← BitVec.toNat_inj, bits, BitVec.toNat_signExtend, BitVec.toNat_setWidth,
    BitVec.msb_eq_decide, BitVec.toNat_ofNat]
  simp only [decide_eq_true_eq]
  split <;> omega

end Tokens

section Probes

variable {platform : Platform} {body : MethodBody} {hooks : Hooks} {result : Exported} {token : UInt64}

private theorem SameNode.hook {starts : Ptr → Nat} {node decoded : Instr} (same : SameNode platform starts node decoded)
    (flags : platform.s_OpCodeFlags node.opcode = 4) :
    decoded.opcode = node.opcode ∧ decoded.operand % 2 ^ 32 = node.operand % 2 ^ 32 := by
  constructor
  · rcases same.opcode with opcode | ⟨short, -⟩
    · exact opcode
    · rw [flags] at short
      exact absurd short (by decide)
  · have plain : ¬node.isBranch platform := by simp [Instr.isBranch, flags, OPCODEFLAGS_BranchTarget]
    have value := same.value plain
    rwa [valueWidth, if_neg (by rw [flags]; decide), operandWidth, flags] at value

private theorem resolved_hook {find : Nat → Ptr} {node : Instr} (flags : platform.s_OpCodeFlags node.opcode = 4) :
    resolved platform find node = node :=
  if_neg (by simp [Instr.isBranch, flags, OPCODEFLAGS_BranchTarget])

/-- A decoded probe keeps the low 32 bits of its argument. -/
private theorem execute_decoded {starts : Ptr → Nat} {find : Nat → Ptr} {loaded : List Instr} {hook : UInt32}
    {brk : Ptr} (same : List.Forall₂ (SameNode platform starts) (probeNodes brk hook (some token)) loaded)
    (stack : List StackValue) :
    execute (loaded.map (resolved platform find)) stack = some ([⟨hook.toNat, reported token⟩], stack) := by
  rcases same with - | ⟨load, same⟩
  rcases same with - | ⟨call, none⟩
  cases none
  rename_i loadNode callNode
  obtain ⟨loads, argument⟩ := load.hook platform.flags_CEE_LDC_I4
  obtain ⟨calls, method⟩ := call.hook platform.flags_CEE_CALL
  rw [List.map_cons, List.map_singleton, resolved_hook (by rw [loads]; exact platform.flags_CEE_LDC_I4),
    resolved_hook (by rw [calls]; exact platform.flags_CEE_CALL)]
  have pushed : BitVec.ofNat 32 loadNode.operand = BitVec.ofNat 32 token.toNat := by
    rw [← BitVec.toNat_inj, BitVec.toNat_ofNat, BitVec.toNat_ofNat]
    exact argument
  have called : callNode.operand % 2 ^ 32 = hook.toNat := method.trans (Nat.mod_eq_of_lt hook.toNat_lt)
  have other : callNode.opcode ≠ CEE_LDC_I4 := by
    rw [calls]
    exact show CEE_CALL ≠ CEE_LDC_I4 by decide
  simp only [execute, if_pos loads, if_neg other, if_pos calls, Option.map_some, called, pushed, reported]

private theorem decodes_of_run (run : InjectEnterExitHooks platform body hooks = .ok result) :
    ∃ imported s' loaded decoded, Import platform body = .ok imported ∧ s'.listing =
      (probedNodes hooks imported.brk imported.listing).map Probed.node ∧
        Decodes platform s' result loaded decoded := by
  obtain ⟨imported, accepted, rest⟩ := Outcome.bind_eq_ok_iff.mp run
  obtain ⟨s', added, exported⟩ := Outcome.bind_eq_ok_iff.mp rest
  obtain ⟨instrs, loadedBody⟩ := Import_eq_ok accepted
  have injected := injected_of_added loadedBody added
  have closed := injected.closed exported
  obtain ⟨nodes', assembled⟩ := Export_eq_ok injected.holds closed exported
  obtain ⟨loaded, decoded, decodes⟩ := decodes_of_assembled injected.holds closed injected.blocked assembled
  refine ⟨imported, s', loaded, decoded, accepted, ?_, decodes⟩
  rw [injected.holds.listing_eq, loadedBody.holds.listing_eq, loadedBody.brk, injectedNodes]

/-- Every probe calls its hook with what is left of the token. -/
theorem DecodedProbe.executes {hook : UInt32} {probe : List Instr} (hookArg : hooks.hookArg = some token)
    (run : InjectEnterExitHooks platform body hooks = .ok result)
    (decodedProbe : DecodedProbe platform body hooks result hook probe) (stack : List StackValue) :
    execute probe stack = some ([⟨hook.toNat, reported token⟩], stack) := by
  obtain ⟨imported, decoded, before, after, brk, role, accepted, decoding, split, -, rfl⟩ := decodedProbe
  obtain ⟨imported', s', loaded, decoded', accepted', listing, decodes⟩ := decodes_of_run run
  cases accepted.symm.trans accepted'
  cases decoding.symm.trans decodes.run
  have same := List.forall₂_take (probeNodes brk hook hooks.hookArg).length
    (List.forall₂_drop before.length decodes.nodes)
  have chunk : (s'.listing.drop before.length).take (probeNodes brk hook hooks.hookArg).length =
      probeNodes brk hook (some token) := by
    rw [listing, split, List.append_assoc, List.map_append, List.drop_left' (by rw [List.length_map]), List.map_append,
      List.take_left' (by rw [List.length_map, List.length_map]), List.map_map, ← hookArg]
    exact List.map_id _
  rw [chunk] at same
  rw [decodes.resolved, ← List.map_drop, ← List.map_take]
  exact execute_decoded same stack

private theorem exitProbed_ret {node : Instr} (member : node ∈ nodes) (ret : node.opcode = CEE_RET)
    (onExitHook : UInt32)
    (hookArg : Option UInt64) (brk : Ptr) :
    ∃ newRet, ⟨newRet, .returns node⟩ ∈ exitProbed onExitHook hookArg brk nodes := by
  induction nodes generalizing brk with
  | nil => simp at member
  | cons other rest ih =>
    rw [exitProbed]
    rcases List.mem_cons.mp member with rfl | later
    · rw [if_pos ret]
      exact ⟨⟨brk, CEE_RET, 0⟩, by simp⟩
    · split
      · obtain ⟨newRet, listed⟩ := ih later (brk + 1 + (probeNodes (brk + 1) onExitHook hookArg).length)
        exact ⟨newRet, by simp [listed]⟩
      · obtain ⟨newRet, listed⟩ := ih later brk
        exact ⟨newRet, List.mem_cons_of_mem _ listed⟩

/-- Where a hook is asked for, there is a probe. -/
private theorem exists_probe (hook : hooks.onEnterHook ≠ mdTokenNil ∨ hooks.onExitHook ≠ mdTokenNil)
    (run : InjectEnterExitHooks platform body hooks = .ok result) :
    ∃ hook probe, DecodedProbe platform body hooks result hook probe := by
  obtain ⟨imported, s', loaded, decoded, accepted, -, decodes⟩ := decodes_of_run run
  rcases hook with enter | exit
  · refine ⟨hooks.onEnterHook, _, imported, decoded, [], exitEntries hooks imported.brk imported.listing, imported.brk,
      .enterProbe, accepted, decodes.run, ?_, .inl ⟨rfl, rfl⟩, rfl⟩
    rw [probedNodes_eq, entries, enterNodes, if_pos enter, List.nil_append]
  · obtain ⟨imported', again, rest⟩ := Outcome.bind_eq_ok_iff.mp run
    cases accepted.symm.trans again
    obtain ⟨probed, added, -⟩ := Outcome.bind_eq_ok_iff.mp rest
    obtain ⟨instrs, loadedBody⟩ := Import_eq_ok accepted
    have holds := loadedBody.holds
    rw [← holds.listing_eq] at holds
    obtain ⟨ret, member, opcode⟩ := AddProbes_ret holds exit added
    obtain ⟨newRet, listed⟩ := exitProbed_ret member opcode hooks.onExitHook hooks.hookArg
      (imported.brk + (enterNodes hooks imported.brk).length)
    obtain ⟨before, after, brk, split⟩ := (expanded_exitProbed _ _).cut_returns listed
    refine ⟨hooks.onExitHook, _, imported, decoded,
      (enterNodes hooks imported.brk).map (⟨·, .enterProbe⟩) ++ before ++
        [⟨{ ret with opcode := CEE_NOP }, .replaced ret⟩],
      ⟨newRet, .returns ret⟩ :: after, brk, .exitProbe ret, accepted, decodes.run, ?_, .inr ⟨ret, rfl, rfl⟩, rfl⟩
    rw [probedNodes, if_pos exit, split]
    simp

private theorem misreports (hookArg : hooks.hookArg = some token)
    (hook : hooks.onEnterHook ≠ mdTokenNil ∨ hooks.onExitHook ≠ mdTokenNil)
    (run : InjectEnterExitHooks platform body hooks = .ok result) : ¬ReportsToken platform body hooks result token := by
  intro reports
  obtain ⟨hook, probe, decodedProbe⟩ := exists_probe hook run
  obtain ⟨argument, executed, type, -⟩ := reports hook probe decodedProbe []
  have passed := decodedProbe.executes hookArg run []
  rw [executed] at passed
  obtain rfl : argument = reported token := by simpa using passed
  rw [parameterTypes_methodHookSig] at type
  exact absurd type (show [some StackType.int64] ≠ [some StackType.int32] by decide)

/-- No token reaches a hook as the 64-bit value its parameter takes: the probes pass 32
bits of it, which they share with every token of the same low half. -/
theorem probes_misreport (hookArg : hooks.hookArg = some token)
    (hook : hooks.onEnterHook ≠ mdTokenNil ∨ hooks.onExitHook ≠ mdTokenNil)
    (run : InjectEnterExitHooks platform body hooks = .ok result) :
    ¬ReportsToken platform body hooks result token ∧
      (∀ hook probe, DecodedProbe platform body hooks result hook probe →
        ∀ stack, execute probe stack = some ([⟨hook.toNat, reported token⟩], stack)) ∧
      (∀ other, reported other = reported token ↔ other.toNat ≡ token.toNat [MOD 2 ^ 32]) ∧
      ((reported token).extended = token.toBitVec ↔ token.toNat < 2 ^ 31 ∨ 2 ^ 64 - 2 ^ 31 ≤ token.toNat) :=
  ⟨misreports hookArg hook run, fun _ _ decodedProbe stack => decodedProbe.executes hookArg run stack,
    fun other => reported_eq_iff other token, extended_reported_iff token⟩

end Probes

section Witness

/-- The hooks of a method that was registered as the given one. -/
def tokenHooks (token : UInt64) : Hooks := ⟨0x06000001, 0x06000002, some token⟩

/-- A body that returns at once. -/
def soleRet : MethodBody where
  Flags := 0
  MaxStack := 8
  LocalVarSigTok := 0
  Code := [0x2A]
  EH := []
  maxStack_lt := smallStack_lt
  inImage := by decide
  clauses_le := noClauses_le

private theorem soleRet_injected (token : UInt64) :
    ∃ result, InjectEnterExitHooks Ecma335.platform soleRet (tokenHooks token) = .ok result := by
  have valid : ∀ instr ∈ [RawInstr.plain CEE_RET 0], instr.Valid Ecma335.platform := by
    simp only [List.mem_singleton, forall_eq, RawInstr.Valid]
    decide
  refine InjectEnterExitHooks_succeeds valid (by decide) ⟨?_, by simp [soleRet]⟩ (fun _ => ⟨0, by simp⟩) ?_
  · intro before instr after split target member
    rcases before with - | ⟨first, rest⟩ <;> simp at split
    obtain ⟨rfl, -⟩ := split
    exact absurd member (List.not_mem_nil (a := target))
  · have length := length_injectedNodes_le Ecma335.platform (tokenHooks token) [.plain CEE_RET 0]
    have nodes : (importedNodes Ecma335.platform [.plain CEE_RET 0]).length = 1 := by decide
    omega

theorem probes_misreport_ret : ∃ result,
    InjectEnterExitHooks Ecma335.platform soleRet (tokenHooks 7) = .ok result ∧
      ¬ReportsToken Ecma335.platform soleRet (tokenHooks 7) result 7 ∧
      (∀ hook probe, DecodedProbe Ecma335.platform soleRet (tokenHooks 7) result hook probe →
        ∀ stack, execute probe stack = some ([⟨hook.toNat, reported 7⟩], stack)) ∧
      (∀ other, reported other = reported 7 ↔ other.toNat ≡ (7 : UInt64).toNat [MOD 2 ^ 32]) ∧
      ((reported 7).extended = (7 : UInt64).toBitVec ↔
        (7 : UInt64).toNat < 2 ^ 31 ∨ 2 ^ 64 - 2 ^ 31 ≤ (7 : UInt64).toNat) := by
  obtain ⟨result, run⟩ := soleRet_injected 7
  exact ⟨result, run, probes_misreport rfl (.inl (by decide)) run⟩

/-- The registration behind 2^32 + 6 others: its probes report what those of token 7 report. -/
theorem token_misreported : (∃ calls, ∃ metadata ∈
      ((MetadataRegistry.new : MetadataRegistry Unit).RegisterMethods () calls).1, metadata.token = 0x100000007) ∧
    reported 0x100000007 = reported 7 ∧
    ∃ result, InjectEnterExitHooks Ecma335.platform soleRet (tokenHooks 0x100000007) = .ok result ∧
      ¬ReportsToken Ecma335.platform soleRet (tokenHooks 0x100000007) result 0x100000007 := by
  obtain ⟨result, run⟩ := soleRet_injected 0x100000007
  exact ⟨MetadataRegistry.exists_token _, by decide, result, run, misreports rfl (.inl (by decide)) run⟩

end Witness

end ClrProfiling
