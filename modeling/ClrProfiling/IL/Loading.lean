import ClrProfiling.IL.Grammar
import ClrProfiling.IL.Listing

/-! The decode loop against the grammar: on a sequence of complete encodings ImportIL
loads one node for each instruction and one for each switch target, and it accepts
nothing else. -/

namespace ClrProfiling

open LinkedRing Word

section Stored

variable (platform : Platform)

/-- What a node keeps of the operand of an instruction at `offset`: a branch keeps the
offset it leads to. -/
def storedOperand (offset opcode operand : Nat) : Nat :=
  match platform.s_OpCodeFlags opcode with
  | 0x11 => wrap32 (offset + (opcodeBytes opcode).length + 1 + signExtend8 operand)
  | 0x14 => wrap32 (offset + (opcodeBytes opcode).length + 4 + operand)
  | _ => operand

/-- The nodes behind a `switch`. -/
def targetNodes (base : Nat) : (brk : Ptr) → List Nat → List Instr
  | _, [] => []
  | brk, target :: rest =>
    ⟨brk, platform.CEE_SWITCH_ARG, wrap32 (base + target)⟩ :: targetNodes base (brk + 1) rest

/-- The nodes of one instruction at `offset`, from the address `brk` on. -/
def rawNodes (brk : Ptr) (offset : Nat) : RawInstr → List Instr
  | .plain opcode operand => [⟨brk, opcode, storedOperand platform offset opcode operand⟩]
  | .switch targets =>
    ⟨brk, CEE_SWITCH, targets.length⟩ ::
      targetNodes platform (wrap32 (offset + 1 + 4 + 4 * targets.length)) (brk + 1) targets

/-- The nodes of a sequence of instructions, before their targets are resolved. -/
def loadedNodes (brk : Ptr) (offset : Nat) : List RawInstr → List Instr
  | [] => []
  | instr :: rest =>
    rawNodes platform brk offset instr ++
      loadedNodes (brk + (rawNodes platform brk offset instr).length) (offset + instr.size platform) rest

/-- The node of the instruction that starts at `position`. -/
def headAt (brk : Ptr) (offset : Nat) : List RawInstr → (position : Nat) → Option Ptr
  | [], _ => none
  | instr :: rest, position =>
    if position = offset then some brk
    else headAt (brk + (rawNodes platform brk offset instr).length) (offset + instr.size platform) rest position

/-- Whether an instruction has targets to resolve. -/
def RawInstr.hasTargets : RawInstr → Bool
  | .plain opcode _ => platform.s_OpCodeFlags opcode &&& OPCODEFLAGS_BranchTarget != 0
  | .switch _ => true

variable {platform}

theorem storedOperand_short (short : platform.s_OpCodeFlags opcode = 0x11) :
    storedOperand platform offset opcode operand =
      wrap32 (offset + (opcodeBytes opcode).length + 1 + signExtend8 operand) := by
  simp [storedOperand, short]

theorem storedOperand_long (long : platform.s_OpCodeFlags opcode = 0x14) :
    storedOperand platform offset opcode operand = wrap32 (offset + (opcodeBytes opcode).length + 4 + operand) := by
  simp [storedOperand, long]

end Stored

namespace ILRewriter

variable (platform : Platform)

/-- A new node behind the last one, its operand still zero. -/
def appendNode (s : ILRewriter) (opcode : Nat) : ILRewriter :=
  let (pInstr, s) := s.NewILInstr
  (s.setOpcode pInstr opcode).InsertBefore platform m_IL pInstr

/-- A new node behind the last one. -/
def loadNode (s : ILRewriter) (opcode operand : Nat) : ILRewriter :=
  (s.appendNode platform opcode).setOperand s.brk operand

/-- The offset table sends `offset` to the next new node. -/
def mark (s : ILRewriter) (offset : Nat) : ILRewriter :=
  { s with m_pOffsetToInstr := Function.update s.m_pOffsetToInstr offset s.brk }

def loadTargets (base : Nat) : List Nat → ILRewriter → ILRewriter
  | [], s => s
  | target :: rest, s =>
    loadTargets base rest (s.loadNode platform platform.CEE_SWITCH_ARG (wrap32 (base + target)))

/-- The nodes of one instruction at `offset`. -/
def loadInstr (s : ILRewriter) (offset : Nat) : RawInstr → ILRewriter
  | .plain opcode operand =>
    (s.mark offset).loadNode platform opcode (storedOperand platform offset opcode operand)
  | .switch targets =>
    loadTargets platform (wrap32 (offset + 1 + 4 + 4 * targets.length)) targets
      ((s.mark offset).loadNode platform CEE_SWITCH targets.length)

/-- The nodes of a sequence of instructions from `offset` on. -/
def loadAll (s : ILRewriter) (offset : Nat) : List RawInstr → ILRewriter
  | [] => s
  | instr :: rest => loadAll (s.loadInstr platform offset instr) (offset + instr.size platform) rest

@[simp] theorem loadNode_codeSize (s : ILRewriter) (opcode operand : Nat) :
    (s.loadNode platform opcode operand).m_CodeSize = s.m_CodeSize := rfl

@[simp] theorem loadTargets_codeSize (base : Nat) (targets : List Nat) (s : ILRewriter) :
    (loadTargets platform base targets s).m_CodeSize = s.m_CodeSize := by
  induction targets generalizing s with
  | nil => rfl
  | cons target rest ih => simp [loadTargets, ih]

@[simp] theorem loadInstr_codeSize (s : ILRewriter) (offset : Nat) (instr : RawInstr) :
    (s.loadInstr platform offset instr).m_CodeSize = s.m_CodeSize := by
  cases instr with
  | plain => rfl
  | switch => exact loadTargets_codeSize ..

variable {platform}

theorem ImportSwitchArgs_eq_ok_iff {s : ILRewriter} {pIL : List UInt8} (size : s.m_CodeSize = pIL.length)
    (inside : offset ≤ pIL.length) :
    ImportSwitchArgs platform pIL base nTargets s offset = .ok (s', offset') ↔
      ∃ targets, targets.length = nTargets ∧ (∀ target ∈ targets, target < 2 ^ 32) ∧
        Stands pIL offset (targets.flatMap (LittleEndian.encode 4)) ∧
        s' = loadTargets platform base targets s ∧ offset' = offset + 4 * nTargets := by
  induction nTargets generalizing s offset with
  | zero =>
    simp only [ImportSwitchArgs, Except.ok.injEq, Prod.mk.injEq, List.length_eq_zero_iff]
    constructor
    · rintro ⟨rfl, rfl⟩
      exact ⟨[], rfl, by simp, stands_nil.mpr inside, rfl, rfl⟩
    · rintro ⟨targets, rfl, -, -, rfl, rfl⟩
      exact ⟨rfl, rfl⟩
  | succ nTargets ih =>
    rw [ImportSwitchArgs, Outcome.guard_eq_ok_iff, Outcome.bind_eq_ok_iff]
    simp only [fetch_eq_ok_iff, size, Nat.not_lt]
    constructor
    · rintro ⟨bound, target, ⟨small, stands⟩, rest⟩
      obtain ⟨targets, rfl, others, later, rfl, rfl⟩ := (ih (s := s.loadNode platform _ _) size bound).mp rest
      refine ⟨target :: targets, rfl, ?_, ?_, rfl, by omega⟩
      · simpa using ⟨by simpa using small, others⟩
      · exact stands_append.mpr ⟨stands, by rwa [LittleEndian.length_encode]⟩
    · rintro ⟨targets, length, small, stands, rfl, rfl⟩
      cases targets with
      | nil => simp at length
      | cons target targets =>
        obtain ⟨first, later⟩ := stands_append.mp stands
        have bound := later.bound
        rw [LittleEndian.length_encode] at later bound
        refine ⟨by omega, target, ⟨by simpa using small target (by simp), first⟩, ?_⟩
        refine (ih (s := s.loadNode platform _ _) size (by omega)).mpr
          ⟨targets, by simpa using length, ?_, later, rfl, by omega⟩
        exact fun other member => small other (List.mem_cons_of_mem _ member)

private theorem fetch_bind_eq_ok_iff {Result : Type} {pIL : List UInt8} {build : Nat → Result}
    {result : Result} :
    (fetch pIL offset width >>= fun value => pure (build value)) = .ok result ↔
      ∃ operand < 256 ^ width, Stands pIL offset (LittleEndian.encode width operand) ∧
        result = build operand := by
  simp only [Outcome.bind_eq_ok_iff, fetch_eq_ok_iff, Outcome.pure_eq, Except.ok.injEq, and_assoc,
    eq_comm (b := result)]

/-- The operand of a node other than a `switch`, in the state that holds its new node. -/
theorem ImportOperand_plain {s : ILRewriter} {pIL : List UInt8} (zero : s.m_operand pInstr = 0)
    (plain : platform.s_OpCodeFlags opcode ≠ 0x20)
    (behind : offset = startOffset + (opcodeBytes opcode).length) (inside : offset ≤ pIL.length) :
    s.ImportOperand platform pIL fBranch (platform.s_OpCodeFlags opcode) pInstr offset = .ok result ↔
      ∃ operand < 256 ^ operandWidth platform opcode,
        Stands pIL offset (LittleEndian.encode (operandWidth platform opcode) operand) ∧
        result = (s.setOperand pInstr (storedOperand platform startOffset opcode operand),
          fBranch || (RawInstr.plain opcode operand).hasTargets platform, offset) := by
  subst behind
  have flags := platform.flags_cases opcode
  simp only [List.mem_cons, List.not_mem_nil, or_false] at flags
  simp only [storedOperand, operandWidth, RawInstr.hasTargets]
  rcases flags with flags | flags | flags | flags | flags | flags | flags | flags
  case inl =>
    have unchanged : s.setOperand pInstr 0 = s := by
      rw [setOperand, ← zero, Function.update_eq_self]
    simp [flags, ImportOperand, OPCODEFLAGS_SizeMask, OPCODEFLAGS_BranchTarget, LittleEndian.encode, stands_nil,
      inside, unchanged, Outcome.pure_eq, eq_comm]
  case inr.inr.inr.inr.inr.inr.inr => exact absurd flags plain
  all_goals
    simp only [flags, ImportOperand]
    rw [fetch_bind_eq_ok_iff]
    simp [OPCODEFLAGS_SizeMask, OPCODEFLAGS_BranchTarget]

/-- The operand of a `switch`: its count, and the nodes of its targets. -/
theorem ImportOperand_switch {s : ILRewriter} {pIL : List UInt8} (size : s.m_CodeSize = pIL.length)
    (fBranch : Bool) (pInstr : Ptr) :
    s.ImportOperand platform pIL fBranch 0x20 pInstr offset = .ok result ↔
      ∃ targets : List Nat, (RawInstr.switch targets).Valid platform ∧
        Stands pIL offset ((RawInstr.switch targets).operandBytes platform) ∧
        result = (loadTargets platform (wrap32 (offset + 4 + 4 * targets.length)) targets
          (s.setOperand pInstr targets.length), true, offset + 4 + 4 * targets.length) := by
  simp only [ImportOperand, Outcome.guard_eq_ok_iff, Outcome.bind_eq_ok_iff, Prod.exists, fetch_eq_ok_iff,
    Nat.not_lt, size, Outcome.pure_eq, RawInstr.Valid, RawInstr.operandBytes, stands_append,
    LittleEndian.length_encode]
  constructor
  · rintro ⟨bound, count, ⟨countSmall, standsCount⟩, s', offset', run, done⟩
    cases done
    obtain ⟨targets, rfl, small, stands, rfl, rfl⟩ := (ImportSwitchArgs_eq_ok_iff (by exact size) bound).mp run
    exact ⟨targets, ⟨by simpa using countSmall, small⟩, ⟨standsCount, stands⟩, by rw [Nat.mul_comm]⟩
  · rintro ⟨targets, ⟨countSmall, small⟩, ⟨standsCount, stands⟩, rfl⟩
    have bound := stands.bound
    refine ⟨by omega, targets.length, ⟨by simpa using countSmall, standsCount⟩, _, _,
      (ImportSwitchArgs_eq_ok_iff (by exact size) (by omega)).mpr ⟨targets, rfl, small, stands, rfl, rfl⟩, ?_⟩
    rw [Nat.mul_comm targets.length 4]

private theorem ImportInstr_eq {s : ILRewriter} {pIL : List UInt8} :
    s.ImportInstr platform pIL fBranch startOffset = (do
      let (opcode, offset) ← readOpcode platform pIL s.m_CodeSize startOffset
      if wrap32 (offset + operandWidth platform opcode) > s.m_CodeSize then .error .COR_E_INVALIDPROGRAM
      else do
        let (s, fBranch, offset) ← ((s.mark startOffset).appendNode platform opcode).ImportOperand platform pIL
          fBranch (platform.s_OpCodeFlags opcode) s.brk offset
        pure (s, fBranch, wrap32 (offset + operandWidth platform opcode))) := rfl

/-- One turn of the decode loop reads one complete encoding and loads its nodes. -/
theorem ImportInstr_eq_ok_iff {s : ILRewriter} {pIL : List UInt8} (size : s.m_CodeSize = pIL.length)
    (small : pIL.length < 2 ^ 32) :
    s.ImportInstr platform pIL fBranch offset = .ok result ↔
      ∃ instr : RawInstr, instr.Valid platform ∧ Stands pIL offset (instr.bytes platform) ∧
        result = (s.loadInstr platform offset instr, fBranch || instr.hasTargets platform,
          offset + instr.size platform) := by
  rw [ImportInstr_eq]
  simp only [Outcome.bind_eq_ok_iff, Prod.exists, size, readOpcode_eq_ok_iff, Outcome.guard_eq_ok_iff,
    Outcome.pure_eq, Nat.not_lt]
  have switchBytes : opcodeBytes CEE_SWITCH = LittleEndian.encode 1 CEE_SWITCH := if_pos (by decide)
  have switchWidth : operandWidth platform CEE_SWITCH = 0 := by
    rw [operandWidth, platform.flags_CEE_SWITCH]
    rfl
  constructor
  · rintro ⟨opcode, behind, ⟨importable, stands, rfl⟩, bound, s', fBranch', offset', run, done⟩
    cases done
    by_cases isSwitch : platform.s_OpCodeFlags opcode = 0x20
    · obtain rfl := (platform.flags_switch importable.1).mp isSwitch
      rw [isSwitch] at run
      obtain ⟨targets, valid, standsTargets, same⟩ := (ImportOperand_switch (by exact size) _ _).mp run
      cases same
      have whole : Stands pIL offset ((RawInstr.switch targets).bytes platform) :=
        stands_append.mpr ⟨stands, standsTargets⟩
      have inside := whole.bound
      refine ⟨.switch targets, valid, whole, ?_⟩
      rw [← RawInstr.size, size_switch] at inside
      rw [switchBytes, LittleEndian.length_encode, switchWidth, size_switch]
      simp only [loadInstr, RawInstr.hasTargets, Bool.or_true, Prod.mk.injEq, true_and]
      exact ⟨rfl, by rw [wrap32_of_lt (by omega)]; omega⟩
    · have inside := stands.bound
      obtain ⟨operand, operandSmall, standsOperand, same⟩ :=
        (ImportOperand_plain (Function.update_self ..) isSwitch rfl inside).mp run
      cases same
      have whole : Stands pIL offset ((RawInstr.plain opcode operand).bytes platform) :=
        stands_append.mpr ⟨stands, standsOperand⟩
      have inside := whole.bound
      refine ⟨.plain opcode operand, ⟨importable, ?_, operandSmall⟩, whole, ?_⟩
      · rintro rfl
        exact isSwitch platform.flags_CEE_SWITCH
      · rw [← RawInstr.size, size_plain] at inside
        rw [wrap32_of_lt (by omega), size_plain]
        simp only [Prod.mk.injEq, true_and]
        exact ⟨rfl, by omega⟩
  · rintro ⟨instr, valid, stands, rfl⟩
    have inside := stands.bound
    obtain ⟨standsOpcode, standsOperand⟩ := stands_append.mp stands
    cases instr with
    | plain opcode operand =>
      obtain ⟨importable, notSwitch, operandSmall⟩ := valid
      have isPlain : platform.s_OpCodeFlags opcode ≠ 0x20 := fun isSwitch =>
        notSwitch ((platform.flags_switch importable.1).mp isSwitch)
      rw [← RawInstr.size, size_plain] at inside
      refine ⟨opcode, _, ⟨importable, standsOpcode, rfl⟩, ?_, _, _, _,
        (ImportOperand_plain (Function.update_self ..) isPlain rfl (by omega)).mpr
          ⟨operand, operandSmall, standsOperand, rfl⟩, ?_⟩
      · rw [wrap32_of_lt (by omega)]
        omega
      · rw [wrap32_of_lt (by omega), size_plain]
        simp only [Except.ok.injEq, Prod.mk.injEq, true_and]
        exact ⟨rfl, by omega⟩
    | switch targets =>
      rw [← RawInstr.size, size_switch] at inside
      have loaded := (ImportOperand_switch (s := (s.mark offset).appendNode platform CEE_SWITCH)
        (by exact size) fBranch s.brk).mpr ⟨targets, valid, standsOperand, rfl⟩
      rw [← platform.flags_CEE_SWITCH] at loaded
      refine ⟨CEE_SWITCH, _, ⟨platform.importable_oneByte (by decide), standsOpcode, rfl⟩, ?_, _, _, _, loaded, ?_⟩
      · rw [switchBytes, LittleEndian.length_encode, switchWidth, wrap32_of_lt (by omega)]
        omega
      · simp only [RawInstr.opcode, Except.ok.injEq, Prod.mk.injEq, loadInstr, RawInstr.hasTargets, Bool.or_true,
          true_and, switchBytes, LittleEndian.length_encode, switchWidth, size_switch]
        exact ⟨rfl, by rw [wrap32_of_lt (by omega)]; omega⟩

private theorem drop_eq_listing_iff {pIL : List UInt8} (stands : Stands pIL offset (instr.bytes platform)) :
    pIL.drop offset = listingBytes platform (instr :: rest) ↔
      pIL.drop (offset + instr.size platform) = listingBytes platform rest := by
  obtain ⟨before, after, rfl, rfl⟩ := stands
  have longer : before.length + instr.size platform = (before ++ instr.bytes platform).length := by
    rw [List.length_append, RawInstr.size]
  rw [longer, List.drop_left, List.append_assoc, List.drop_left, listingBytes, List.flatMap_cons,
    List.append_cancel_left_eq, listingBytes]

private theorem loaded_at_end {s : ILRewriter} {pIL : List UInt8} {result : ILRewriter × Bool} :
    (∃ instrs : List RawInstr, (∀ instr ∈ instrs, instr.Valid platform) ∧
        pIL.drop pIL.length = listingBytes platform instrs ∧
        result = (s.loadAll platform pIL.length instrs, fBranch || instrs.any (RawInstr.hasTargets platform))) ↔
      result = (s, fBranch) := by
  constructor
  · rintro ⟨instrs, -, bytes, rfl⟩
    obtain rfl := listingBytes_eq_nil (by simpa using bytes.symm)
    simp [loadAll]
  · rintro rfl
    exact ⟨[], by simp, by simp [listingBytes], by simp [loadAll]⟩

/-- The decode loop accepts exactly the sequences of complete encodings, and loads their nodes. -/
theorem ImportLoop_eq_ok_iff {s : ILRewriter} {pIL : List UInt8} (size : s.m_CodeSize = pIL.length)
    (small : pIL.length < 2 ^ 32) (inside : offset ≤ pIL.length) (enough : pIL.length ≤ offset + fuel) :
    ImportLoop platform pIL fuel s fBranch offset = .ok result ↔
      ∃ instrs : List RawInstr, (∀ instr ∈ instrs, instr.Valid platform) ∧
        pIL.drop offset = listingBytes platform instrs ∧
        result = (s.loadAll platform offset instrs, fBranch || instrs.any (RawInstr.hasTargets platform)) := by
  induction fuel generalizing s fBranch offset with
  | zero =>
    have finished : offset = pIL.length := by omega
    subst finished
    rw [ImportLoop, size, if_neg (Nat.lt_irrefl _), loaded_at_end, Except.ok.injEq, eq_comm]
  | succ fuel ih =>
    rw [ImportLoop, size]
    by_cases within : offset < pIL.length
    · rw [if_pos within]
      constructor
      · intro run
        cases turn : s.ImportInstr platform pIL fBranch offset with
        | error failure => simp [turn] at run
        | ok next =>
          obtain ⟨instr, valid, stands, rfl⟩ := (ImportInstr_eq_ok_iff size small).mp turn
          have bound : offset + instr.size platform ≤ pIL.length := stands.bound
          have positive := instr.size_pos platform
          rw [turn] at run
          obtain ⟨instrs, others, later, rfl⟩ :=
            (ih (by simpa using size) bound (by omega)).mp run
          refine ⟨instr :: instrs, ?_, (drop_eq_listing_iff stands).mpr later, ?_⟩
          · simpa using ⟨valid, others⟩
          · simp [loadAll, Bool.or_assoc]
      · rintro ⟨instrs, valid, bytes, rfl⟩
        cases instrs with
        | nil =>
          have none : pIL.length - offset = 0 := by simpa [listingBytes] using congrArg List.length bytes
          omega
        | cons instr instrs =>
          have stands : Stands pIL offset (instr.bytes platform) :=
            ⟨pIL.take offset, listingBytes platform instrs, by
              rw [List.append_assoc]
              change pIL = pIL.take offset ++ listingBytes platform (instr :: instrs)
              rw [← bytes, List.take_append_drop], by simpa using inside⟩
          have bound : offset + instr.size platform ≤ pIL.length := stands.bound
          have positive := instr.size_pos platform
          have turn : s.ImportInstr platform pIL fBranch offset = .ok (s.loadInstr platform offset instr,
              fBranch || instr.hasTargets platform, offset + instr.size platform) :=
            (ImportInstr_eq_ok_iff size small).mpr ⟨instr, valid instr (by simp), stands, rfl⟩
          rw [turn]
          refine (ih (by simpa using size) bound (by omega)).mpr
            ⟨instrs, fun other member => valid other (List.mem_cons_of_mem _ member),
              (drop_eq_listing_iff stands).mp bytes, ?_⟩
          simp [loadAll, Bool.or_assoc]
    · have finished : offset = pIL.length := by omega
      subst finished
      rw [if_neg (Nat.lt_irrefl _), loaded_at_end, Except.ok.injEq, eq_comm]

variable (platform)

theorem loadNode_eq (s : ILRewriter) (opcode operand : Nat) :
    s.loadNode platform opcode operand = (s.freshNode opcode operand).InsertBefore platform m_IL s.brk := by
  simp [loadNode, appendNode, NewILInstr, ILRewriter.setOpcode, ILRewriter.setOperand, InsertBefore, AdjustState,
    freshNode, Function.update_idem]

theorem Holds.loadNode {s : ILRewriter} (holds : s.Holds nodes) (opcode operand : Nat) :
    (s.loadNode platform opcode operand).Holds (nodes ++ [⟨s.brk, opcode, operand⟩]) := by
  rw [loadNode_eq platform]
  have ends : s.Holds (nodes ++ []) := by simpa using holds
  exact ends.insertBefore platform opcode operand

theorem grown_loadNode (s : ILRewriter) (opcode operand : Nat) :
    Grown platform s (s.loadNode platform opcode operand) [opcode] := by
  rw [loadNode_eq platform]
  exact grown_insertBefore ..

theorem Holds.loadTargets {s : ILRewriter} (holds : s.Holds nodes) (base : Nat) (targets : List Nat) :
    (ILRewriter.loadTargets platform base targets s).Holds (nodes ++ targetNodes platform base s.brk targets) := by
  induction targets generalizing s nodes with
  | nil => simpa [ILRewriter.loadTargets, targetNodes] using holds
  | cons target rest ih =>
    have later := ih (holds.loadNode platform platform.CEE_SWITCH_ARG (wrap32 (base + target)))
    rw [List.append_assoc] at later
    exact later

theorem grown_loadTargets (s : ILRewriter) (base : Nat) (targets : List Nat) :
    Grown platform s (loadTargets platform base targets s)
      ((targetNodes platform base s.brk targets).map Instr.opcode) := by
  induction targets generalizing s with
  | nil => exact .refl platform s
  | cons target rest ih =>
    exact (grown_loadNode platform s platform.CEE_SWITCH_ARG (wrap32 (base + target))).trans (ih _)

theorem Holds.loadInstr {s : ILRewriter} (holds : s.Holds nodes) (offset : Nat) (instr : RawInstr) :
    (s.loadInstr platform offset instr).Holds (nodes ++ rawNodes platform s.brk offset instr) := by
  have marked : (s.mark offset).Holds nodes :=
    ⟨holds.ring, holds.opcode, holds.operand, holds.allocated, holds.hub_lt, holds.count⟩
  cases instr with
  | plain opcode operand => exact marked.loadNode platform ..
  | switch targets =>
    have later := (marked.loadNode platform CEE_SWITCH targets.length).loadTargets platform
      (wrap32 (offset + 1 + 4 + 4 * targets.length)) targets
    rw [List.append_assoc] at later
    exact later

theorem grown_loadInstr (s : ILRewriter) (offset : Nat) (instr : RawInstr) :
    Grown platform s (s.loadInstr platform offset instr) ((rawNodes platform s.brk offset instr).map Instr.opcode) := by
  have marked : Grown platform s (s.mark offset) [] := ⟨rfl, rfl, rfl, rfl, rfl, rfl⟩
  cases instr with
  | plain opcode operand => exact marked.trans (grown_loadNode ..)
  | switch targets => exact (marked.trans (grown_loadNode ..)).trans (grown_loadTargets ..)

theorem Holds.loadAll {s : ILRewriter} (holds : s.Holds nodes) (offset : Nat) (instrs : List RawInstr) :
    (s.loadAll platform offset instrs).Holds (nodes ++ loadedNodes platform s.brk offset instrs) := by
  induction instrs generalizing s nodes offset with
  | nil => simpa [ILRewriter.loadAll, loadedNodes] using holds
  | cons instr rest ih =>
    have brk : (s.loadInstr platform offset instr).brk = s.brk + (rawNodes platform s.brk offset instr).length := by
      rw [(grown_loadInstr platform s offset instr).brk, List.length_map]
    have later := ih (holds.loadInstr platform offset instr) (offset + instr.size platform)
    rw [brk, List.append_assoc] at later
    exact later

theorem grown_loadAll (s : ILRewriter) (offset : Nat) (instrs : List RawInstr) :
    Grown platform s (s.loadAll platform offset instrs)
      ((loadedNodes platform s.brk offset instrs).map Instr.opcode) := by
  induction instrs generalizing s offset with
  | nil => exact .refl platform s
  | cons instr rest ih =>
    have first := grown_loadInstr platform s offset instr
    have later := ih (s.loadInstr platform offset instr) (offset + instr.size platform)
    rw [first.brk, List.length_map] at later
    rw [loadedNodes, List.map_append]
    exact first.trans later

end ILRewriter

section Heads

variable {platform : Platform}

theorem headAt_bounds {instrs : List RawInstr} (found : headAt platform brk offset instrs position = some p) :
    offset ≤ position ∧ position < offset + (listingBytes platform instrs).length := by
  induction instrs generalizing brk offset with
  | nil => simp [headAt] at found
  | cons instr rest ih =>
    have positive := instr.size_pos platform
    rw [listingBytes, List.flatMap_cons, List.length_append, ← RawInstr.size, ← listingBytes]
    rw [headAt] at found
    split at found
    · omega
    · have later := ih found
      omega

end Heads

namespace ILRewriter

variable {platform : Platform}

private theorem loadTargets_table (base : Nat) (targets : List Nat) (s : ILRewriter) :
    (loadTargets platform base targets s).m_pOffsetToInstr = s.m_pOffsetToInstr := by
  induction targets generalizing s with
  | nil => rfl
  | cons target rest ih => exact ih _

private theorem loadInstr_table (s : ILRewriter) (offset : Nat) (instr : RawInstr) :
    (s.loadInstr platform offset instr).m_pOffsetToInstr = Function.update s.m_pOffsetToInstr offset s.brk := by
  cases instr with
  | plain opcode operand => rfl
  | switch targets => exact loadTargets_table ..

/-- The offset table sends the start of each instruction to its node. -/
theorem loadAll_table (s : ILRewriter) (offset : Nat) (instrs : List RawInstr) (position : Nat) :
    (s.loadAll platform offset instrs).m_pOffsetToInstr position =
      (headAt platform s.brk offset instrs position).getD (s.m_pOffsetToInstr position) := by
  induction instrs generalizing s offset with
  | nil => rfl
  | cons instr rest ih =>
    rw [loadAll, ih, (grown_loadInstr platform s offset instr).brk, loadInstr_table, List.length_map, headAt]
    by_cases here : position = offset
    · subst here
      have positive := instr.size_pos platform
      rw [if_pos rfl, Function.update_self]
      cases found : headAt platform (s.brk + (rawNodes platform s.brk position instr).length)
          (position + instr.size platform) rest position with
      | none => rfl
      | some p =>
        have later := (headAt_bounds found).1
        omega
    · rw [if_neg here, Function.update_of_ne here]

end ILRewriter

end ClrProfiling
