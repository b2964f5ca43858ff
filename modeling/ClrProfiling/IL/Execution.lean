import ClrProfiling.Foundation.Machine
import ClrProfiling.IL.Regions

/-! Method bodies as programs: what stands at a position is read from the bytes of the code, and
every operation knows the protected regions around it. -/

namespace ClrProfiling

open LinkedRing Word ILRewriter Machine

section Decoder

/-- The targets behind the count of a `switch`. -/
def fetchTargets (pIL : List UInt8) : (nTargets offset : Nat) → Except Failure (List Nat)
  | 0, _ => .ok []
  | nTargets + 1, offset => do
    let target ← fetch pIL offset 4
    let rest ← fetchTargets pIL nTargets (offset + 4)
    pure (target :: rest)

/-- The instruction that stands at a position of the code. -/
def instrAt (platform : Platform) (pIL : List UInt8) (position : Nat) : Except Failure RawInstr := do
  let (opcode, offset) ← readOpcode platform pIL pIL.length position
  if platform.s_OpCodeFlags opcode = 0x20 then
    let nTargets ← fetch pIL offset 4
    let targets ← fetchTargets pIL nTargets (offset + 4)
    pure (.switch targets)
  else
    let operand ← fetch pIL offset (operandWidth platform opcode)
    pure (.plain opcode operand)

variable {platform : Platform} {pIL : List UInt8}

private theorem fetchTargets_eq_ok_iff (inside : offset ≤ pIL.length) :
    fetchTargets pIL nTargets offset = .ok targets ↔
      targets.length = nTargets ∧ (∀ target ∈ targets, target < 2 ^ 32) ∧
        Stands pIL offset (targets.flatMap (LittleEndian.encode 4)) := by
  induction nTargets generalizing offset targets with
  | zero =>
    simp only [fetchTargets, Except.ok.injEq]
    constructor
    · rintro rfl
      exact ⟨rfl, by simp, stands_nil.mpr inside⟩
    · rintro ⟨length, -, -⟩
      exact (List.eq_nil_of_length_eq_zero length).symm
  | succ nTargets ih =>
    simp only [fetchTargets, Outcome.bind_eq_ok_iff, fetch_eq_ok_iff, Outcome.pure_eq, Except.ok.injEq]
    constructor
    · rintro ⟨target, ⟨small, stands⟩, rest, fetched, rfl⟩
      have bound := stands.bound
      rw [LittleEndian.length_encode] at bound
      obtain ⟨length, others, behind⟩ := (ih bound).mp fetched
      refine ⟨by rw [List.length_cons, length], List.forall_mem_cons.mpr ⟨small, others⟩, ?_⟩
      rw [List.flatMap_cons, stands_append, LittleEndian.length_encode]
      exact ⟨stands, behind⟩
    · rintro ⟨length, small, stands⟩
      cases targets with
      | nil => cases length
      | cons target rest =>
        obtain ⟨first, others⟩ := List.forall_mem_cons.mp small
        rw [List.flatMap_cons, stands_append, LittleEndian.length_encode] at stands
        have bound := stands.1.bound
        rw [LittleEndian.length_encode] at bound
        exact ⟨target, ⟨first, stands.1⟩, rest, (ih bound).mpr ⟨Nat.succ.inj length, others, stands.2⟩, rfl⟩

/-- An instruction is read where its encoding stands, and nowhere else. -/
theorem instrAt_eq_ok_iff : instrAt platform pIL position = .ok instr ↔
    instr.Valid platform ∧ Stands pIL position (instr.bytes platform) := by
  simp only [instrAt, Outcome.bind_eq_ok_iff, Prod.exists, readOpcode_eq_ok_iff]
  constructor
  · rintro ⟨opcode, offset, ⟨importable, stands, rfl⟩, run⟩
    split at run
    · rename_i switch
      obtain rfl := (platform.flags_switch importable.1).mp switch
      simp only [Outcome.bind_eq_ok_iff, fetch_eq_ok_iff, Outcome.pure_eq, Except.ok.injEq] at run
      obtain ⟨nTargets, ⟨small, count⟩, targets, fetched, rfl⟩ := run
      have bound := count.bound
      rw [LittleEndian.length_encode] at bound
      obtain ⟨rfl, others, behind⟩ := (fetchTargets_eq_ok_iff bound).mp fetched
      refine ⟨⟨small, others⟩, stands_append.mpr ⟨stands, stands_append.mpr ⟨count, ?_⟩⟩⟩
      rwa [LittleEndian.length_encode]
    · rename_i notSwitch
      simp only [Outcome.bind_eq_ok_iff, fetch_eq_ok_iff, Outcome.pure_eq, Except.ok.injEq] at run
      obtain ⟨operand, ⟨small, behind⟩, rfl⟩ := run
      refine ⟨⟨importable, ?_, small⟩, stands_append.mpr ⟨stands, behind⟩⟩
      rintro rfl
      exact notSwitch platform.flags_CEE_SWITCH
  · rintro ⟨valid, stands⟩
    obtain ⟨head, behind⟩ := stands_append.mp stands
    cases instr with
    | plain opcode operand =>
      obtain ⟨importable, notSwitch, small⟩ := valid
      refine ⟨opcode, _, ⟨importable, head, rfl⟩, ?_⟩
      rw [if_neg fun switch => notSwitch ((platform.flags_switch importable.1).mp switch)]
      simp only [Outcome.bind_eq_ok_iff, fetch_eq_ok_iff]
      exact ⟨operand, ⟨small, behind⟩, rfl⟩
    | switch targets =>
      obtain ⟨small, others⟩ := valid
      refine ⟨CEE_SWITCH, _, ⟨platform.importable_oneByte (by decide), head, rfl⟩, ?_⟩
      obtain ⟨count, behind⟩ := stands_append.mp behind
      rw [LittleEndian.length_encode] at behind
      have bound := count.bound
      rw [LittleEndian.length_encode] at bound
      rw [if_pos platform.flags_CEE_SWITCH]
      simp only [Outcome.bind_eq_ok_iff, fetch_eq_ok_iff]
      exact ⟨_, ⟨small, count⟩, targets, (fetchTargets_eq_ok_iff bound).mpr ⟨rfl, others, behind⟩, rfl⟩

theorem instrAt_listing {before after : List RawInstr} (valid : instr.Valid platform)
    (code : pIL = listingBytes platform (before ++ instr :: after)) :
    instrAt platform pIL (listingBytes platform before).length = .ok instr := by
  refine instrAt_eq_ok_iff.mpr ⟨valid, listingBytes platform before, listingBytes platform after, ?_, rfl⟩
  simp [code, listingBytes]

theorem instrAt_end (platform : Platform) (pIL : List UInt8) :
    ∃ failure, instrAt platform pIL pIL.length = .error failure := by
  cases found : instrAt platform pIL pIL.length with
  | error failure => exact ⟨failure, rfl⟩
  | ok instr =>
    have bound := (instrAt_eq_ok_iff.mp found).2.bound
    have positive := instr.size_pos platform
    simp only [RawInstr.size] at positive
    omega

end Decoder

section Programs

/-- What is executed: an opcode and its operand, which is the number of targets for a `switch` and
nothing for a branch. -/
structure Instruction where
  opcode : Nat
  operand : Nat
deriving DecidableEq, Repr

/-- What a clause says of a position. -/
structure Protection where
  flags : UInt32
  classToken : Option UInt32
  covers : Region → Bool

instance (ehInfo : EHInfo) (region : Region) (position : Nat) : Decidable (ehInfo.covers region position) :=
  inferInstanceAs (Decidable (_ ∧ _))

/-- The clauses seen from a position. -/
def protections (EH : List EHInfo) (position : Nat) : List Protection :=
  EH.map fun ehInfo => {
    flags := ehInfo.Flags
    classToken := if ehInfo.isFilter then none else some ehInfo.ClassTokenOrFilterOffset
    covers := fun region => ehInfo.covers region position }

/-- Where the runtime enters a clause: its handler, and its filter. -/
def EHInfo.entries (ehInfo : EHInfo) : List Nat :=
  ehInfo.HandlerOffset.toNat :: if ehInfo.isFilter then [ehInfo.ClassTokenOrFilterOffset.toNat] else []

variable (platform : Platform)

/-- Short branches do what their long counterparts do. -/
def longForm (opcode : Nat) : Nat := if platform.s_OpCodeFlags opcode = 0x11 then widened opcode else opcode

def RawInstr.instruction : RawInstr → Instruction
  | .plain opcode operand =>
    if platform.s_OpCodeFlags opcode &&& OPCODEFLAGS_BranchTarget ≠ 0 then ⟨longForm platform opcode, 0⟩
    else ⟨opcode, operand⟩
  | .switch targets => ⟨CEE_SWITCH, targets.length⟩

def commandAt (pIL : List UInt8) (EH : List EHInfo) (position : Nat) :
    Option (Command Instruction (List Protection) Nat) :=
  match instrAt platform pIL position with
  | .error _ => none
  | .ok instr => some {
      op := instr.instruction platform
      place := protections EH position
      next := position + instr.size platform
      targets := instr.targets platform position }

/-- A method body as a program over the positions of its code. -/
def bodyProgram (pIL : List UInt8) (EH : List EHInfo) : Program Instruction (List Protection) Nat where
  entry := 0
  fetch := commandAt platform pIL EH
  handlers := EH.flatMap EHInfo.entries

end Programs

section Nodes

variable {platform : Platform} {starts : Ptr → Nat}

/-- The operation of the first node of an instruction. -/
def Instr.instruction (platform : Platform) (node : Instr) : Instruction :=
  if node.isBranch platform then ⟨longForm platform node.opcode, 0⟩
  else ⟨node.opcode, node.operand % 256 ^ valueWidth platform node.opcode⟩

/-- The addresses the branches of a list hold. -/
def branchTargets (platform : Platform) (nodes : List Instr) : List Nat :=
  (nodes.filter fun node => node.isBranch platform).map Instr.operand

private theorem longForm_widened (short : platform.s_OpCodeFlags opcode = 0x11) :
    longForm platform (widened opcode) = longForm platform opcode := by
  rw [longForm, if_neg (by rw [flags_widened short]; decide), longForm, if_pos short]

theorem isBranch_widened {node decoded : Instr}
    (opcode : decoded.opcode = node.opcode ∨
      platform.s_OpCodeFlags node.opcode = 0x11 ∧ decoded.opcode = widened node.opcode) :
    (decoded.isBranch platform ↔ node.isBranch platform) ∧
      longForm platform decoded.opcode = longForm platform node.opcode := by
  rcases opcode with same | ⟨short, long⟩
  · rw [Instr.isBranch, Instr.isBranch, same]
    exact ⟨Iff.rfl, rfl⟩
  · rw [Instr.isBranch, Instr.isBranch, long, longForm_widened short, flags_widened short, short]
    exact ⟨by decide, rfl⟩

theorem SameNode.instruction_eq (same : SameNode platform starts node decoded) :
    decoded.instruction platform = node.instruction platform := by
  obtain ⟨branches, longForms⟩ := isBranch_widened same.opcode
  by_cases branch : node.isBranch platform
  · rw [Instr.instruction, if_pos (branches.mpr branch), Instr.instruction, if_pos branch, longForms]
  · rcases same.opcode with opcode | ⟨short, -⟩
    · rw [Instr.instruction, if_neg fun decodes => branch (branches.mp decodes), Instr.instruction, if_neg branch,
        opcode, same.value branch]
    · exact absurd (by rw [Instr.isBranch, short]; decide) branch

theorem Widened.instruction_eq (widening : Widened platform node node') :
    node'.instruction platform = node.instruction platform := by
  obtain ⟨branches, longForms⟩ := isBranch_widened widening.2.2
  by_cases branch : node.isBranch platform
  · rw [Instr.instruction, if_pos (branches.mpr branch), Instr.instruction, if_pos branch, longForms]
  · rcases widening.2.2 with opcode | ⟨short, -⟩
    · rw [Instr.instruction, if_neg fun wide => branch (branches.mp wide), Instr.instruction, if_neg branch, opcode,
        widening.2.1]
    · exact absurd (by rw [Instr.isBranch, short]; decide) branch

theorem resolved_instruction (find : Nat → Ptr) (node : Instr) :
    (resolved platform find node).instruction platform = node.instruction platform := by
  unfold resolved
  split
  · rename_i branch
    rw [Instr.instruction, if_pos (by exact branch), Instr.instruction, if_pos branch]
  · rfl

theorem branchTargets_cons (node : Instr) (rest : List Instr) :
    branchTargets platform (node :: rest) =
      (if node.isBranch platform then [node.operand] else []) ++ branchTargets platform rest := by
  unfold branchTargets
  rw [List.filter_cons]
  split <;> simp_all

theorem branchTargets_sameNodes {nodes decoded : List Instr}
    (same : List.Forall₂ (SameNode platform starts) nodes decoded) :
    branchTargets platform decoded = (branchTargets platform nodes).map starts := by
  induction same with
  | nil => rfl
  | @cons node other _ _ first rest ih =>
    rw [branchTargets_cons, branchTargets_cons, ih, List.map_append]
    by_cases branch : node.isBranch platform
    · rw [if_pos ((isBranch_widened first.opcode).1.mpr branch), if_pos branch, first.target branch]
      rfl
    · rw [if_neg fun decodes => branch ((isBranch_widened first.opcode).1.mp decodes), if_neg branch]
      rfl

theorem branchTargets_widened {nodes nodes' : List Instr} (widening : List.Forall₂ (Widened platform) nodes nodes') :
    branchTargets platform nodes' = branchTargets platform nodes := by
  induction widening with
  | nil => rfl
  | @cons node other _ _ first rest ih =>
    rw [branchTargets_cons, branchTargets_cons, ih, first.2.1]
    simp only [(isBranch_widened first.2.2).1]

theorem branchTargets_resolved (find : Nat → Ptr) (nodes : List Instr) :
    branchTargets platform (nodes.map (resolved platform find)) =
      (branchTargets platform nodes).map fun position => find (position % 2 ^ 32) := by
  induction nodes with
  | nil => rfl
  | cons node rest ih =>
    rw [List.map_cons, branchTargets_cons, branchTargets_cons, ih, List.map_append]
    by_cases branch : node.isBranch platform
    · have still : (resolved platform find node).isBranch platform := by
        rwa [Instr.isBranch, resolved_opcode]
      rw [if_pos still, if_pos branch, resolved, if_pos branch]
      rfl
    · have still : ¬(resolved platform find node).isBranch platform := by
        rwa [Instr.isBranch, resolved_opcode]
      rw [if_neg still, if_neg branch]
      rfl

private theorem branchTargets_targetNodes (base : Nat) (brk : Ptr) (targets : List Nat) :
    branchTargets platform (targetNodes platform base brk targets) =
      targets.map fun target => wrap32 (base + target) := by
  induction targets generalizing brk with
  | nil => rfl
  | cons target rest ih =>
    rw [targetNodes, branchTargets_cons, if_pos (Instr.isBranch.of_switchArg rfl), ih]
    rfl

/-- The targets of an instruction are those of its nodes. -/
theorem branchTargets_rawNodes (brk : Ptr) (offset : Nat) (instr : RawInstr) :
    branchTargets platform (rawNodes platform brk offset instr) = instr.targets platform offset := by
  cases instr with
  | plain opcode operand =>
    rw [rawNodes, branchTargets_cons, RawInstr.targets]
    by_cases branch : platform.s_OpCodeFlags opcode &&& OPCODEFLAGS_BranchTarget ≠ 0
    · rw [if_pos (by exact branch), if_pos branch]
      rfl
    · rw [if_neg (by exact branch), if_neg branch]
      rfl
  | switch targets =>
    rw [rawNodes, branchTargets_cons, if_neg (Instr.not_isBranch_of_switch rfl), branchTargets_targetNodes]
    simp only [wrap32_add_left, RawInstr.targets, List.nil_append]

/-- The first node of an instruction stands for it. -/
theorem rawNodes_first {instr : RawInstr} (valid : instr.Valid platform) (brk : Ptr) (offset : Nat) :
    ∃ node rest, rawNodes platform brk offset instr = node :: rest ∧ node.ptr = brk ∧
      node.instruction platform = instr.instruction platform := by
  cases instr with
  | plain opcode operand =>
    refine ⟨_, [], rfl, rfl, ?_⟩
    by_cases branch : platform.s_OpCodeFlags opcode &&& OPCODEFLAGS_BranchTarget ≠ 0
    · rw [Instr.instruction, if_pos (by exact branch), RawInstr.instruction, if_pos branch]
    · have notSwitch := mt (platform.flags_switch valid.1.1).mp valid.2.1
      have stored : storedOperand platform offset opcode operand = operand := by
        unfold storedOperand
        split
        · rename_i short
          exact absurd (by rw [short]; decide) branch
        · rename_i long
          exact absurd (by rw [long]; decide) branch
        · rfl
      rw [Instr.instruction, if_neg (by exact branch), RawInstr.instruction, if_neg branch, valueWidth,
        if_neg notSwitch, stored, Nat.mod_eq_of_lt valid.2.2]
  | switch targets =>
    refine ⟨_, _, rfl, rfl, ?_⟩
    rw [Instr.instruction, if_neg (Instr.not_isBranch_of_switch rfl), RawInstr.instruction, valueWidth,
      if_pos platform.flags_CEE_SWITCH, Nat.mod_eq_of_lt (by exact valid.1)]

end Nodes

section Blocks

variable {platform : Platform} {starts : Ptr → Nat}

/-- The nodes of an instruction, targets looked up. -/
theorem rawNodes_block {instr : RawInstr} (valid : instr.Valid platform) (find : Nat → Ptr) (brk : Ptr) (offset : Nat) :
    ∃ block : Block, block.WellFormed platform ∧
      (rawNodes platform brk offset instr).map (resolved platform find) = block.nodes ∧
      block.head.instruction platform = instr.instruction platform := by
  obtain ⟨node, rest, whole, -, instruction⟩ := rawNodes_first valid brk offset
  cases instr with
  | plain opcode operand =>
    refine ⟨.plain (resolved platform find ⟨brk, opcode, storedOperand platform offset opcode operand⟩), ?_, rfl, ?_⟩
    · rw [Block.WellFormed, resolved_opcode]
      exact ⟨valid.1, valid.2.1⟩
    · obtain ⟨rfl, rfl⟩ := List.cons_eq_cons.mp whole
      rw [Block.head, resolved_instruction, instruction]
  | switch targets =>
    have plain : ¬(⟨brk, CEE_SWITCH, targets.length⟩ : Instr).isBranch platform := Instr.not_isBranch_of_switch rfl
    refine ⟨.switch ⟨brk, CEE_SWITCH, targets.length⟩
      ((targetNodes platform (wrap32 (offset + 1 + 4 + 4 * targets.length))
      (brk + 1) targets).map (resolved platform find)), ⟨rfl, ?_, ?_⟩, ?_, ?_⟩
    · rw [List.length_map, length_targetNodes]
      exact Nat.mod_eq_of_lt valid.1
    · intro argument member
      obtain ⟨target, listed, rfl⟩ := List.mem_map.mp member
      rw [resolved_opcode, targetNodes_opcode listed]
    · rw [rawNodes, List.map_cons, resolved, if_neg plain]
      rfl
    · obtain ⟨rfl, rfl⟩ := List.cons_eq_cons.mp whole
      rw [Block.head, instruction]

/-- Widening leaves an instruction one instruction, which does the same. -/
theorem Block.widened {block : Block} (formed : block.WellFormed platform)
    (widening : List.Forall₂ (Widened platform) block.nodes nodes') :
    ∃ block' : Block, block'.WellFormed platform ∧ nodes' = block'.nodes ∧
      block'.head.instruction platform = block.head.instruction platform := by
  cases block with
  | plain node =>
    obtain ⟨node', rest, first, others, rfl⟩ := List.forall₂_cons_left_iff.mp widening
    cases others
    refine ⟨.plain node', ?_, rfl, first.instruction_eq⟩
    rcases first.2.2 with opcode | ⟨short, long⟩
    · rw [Block.WellFormed, opcode]
      exact formed
    · rw [Block.WellFormed, long]
      exact widened_importable short
  | switch node arguments =>
    obtain ⟨node', arguments', first, others, rfl⟩ := List.forall₂_cons_left_iff.mp widening
    obtain ⟨opcode, count, internal⟩ := formed
    refine ⟨.switch node' arguments', ⟨?_, ?_, ?_⟩, rfl, first.instruction_eq⟩
    · rcases first.2.2 with same | ⟨short, -⟩
      · rw [same, opcode]
      · rw [opcode, platform.flags_CEE_SWITCH] at short
        cases short
    · rw [first.2.1, count, others.length_eq]
    · intro argument' member
      obtain ⟨argument, listed, wide⟩ := widened_source others member
      rcases wide.2.2 with same | ⟨short, -⟩
      · rw [same, internal argument listed]
      · rw [internal argument listed, platform.flags_switchArg] at short
        cases short

private theorem encode_prefix (starts : Ptr → Nat) {blocks : List Block}
    (formed : ∀ block ∈ blocks, block.WellFormed platform)
    (base place : Nat) (rest : List Instr) :
    ∃ bytes base', bytes.length = totalSize platform (blockNodes blocks) ∧
      encodeFrom platform starts base place (blockNodes blocks ++ rest) =
        bytes ++ encodeFrom platform starts base' (place + totalSize platform (blockNodes blocks)) rest := by
  induction blocks generalizing base place with
  | nil => exact ⟨[], base, rfl, rfl⟩
  | cons block others ih =>
    obtain ⟨first, formed⟩ := List.forall_mem_cons.mp formed
    obtain ⟨base', here⟩ := encode_block starts first base place (blockNodes others ++ rest)
    obtain ⟨bytes, base'', length, later⟩ := ih formed base' (place + totalSize platform block.nodes)
    refine ⟨(block.raw platform starts place).bytes platform ++ bytes, base'', ?_, ?_⟩
    · rw [List.length_append, length, blockNodes_cons, totalSize_append, ← block.raw_size first place, RawInstr.size]
    · rw [blockNodes_cons, List.append_assoc, here, later, totalSize_append, List.append_assoc, Nat.add_assoc]

/-- What is read at a cut of an encoded list. -/
theorem instrAt_encoded {block : Block} {before : List Instr} (after : List Instr)
    (blocked : WellBlocked platform before)
    (formed : block.WellFormed platform) (small : ∀ node ∈ block.nodes, starts node.operand < 2 ^ 32)
    (near : EveryAt platform (fun place node => ¬FarShort platform starts place node) (totalSize platform before)
      block.nodes) :
    ∃ instr, instrAt platform (encodeFrom platform starts 0 0 (before ++ (block.nodes ++ after)))
        (totalSize platform before) = .ok instr ∧
      instr.size platform = totalSize platform block.nodes ∧
      instr.instruction platform = block.head.instruction platform ∧
      instr.targets platform (totalSize platform before) = (branchTargets platform block.nodes).map starts := by
  obtain ⟨blocks, others, rfl⟩ := blocked
  have valid : (block.raw platform starts (totalSize platform (blockNodes blocks))).Valid platform :=
    block.raw_valid formed _
  refine ⟨_, instrAt_eq_ok_iff.mpr ⟨valid, ?_⟩, block.raw_size formed _, ?_⟩
  · obtain ⟨bytes, base, length, whole⟩ := encode_prefix starts others 0 0 (block.nodes ++ after)
    rw [Nat.zero_add] at whole
    obtain ⟨base', here⟩ := encode_block starts formed base (totalSize platform (blockNodes blocks)) after
    exact ⟨bytes, _, by rw [whole, here, List.append_assoc], length⟩
  · have same : List.Forall₂ (SameNode platform starts) (blockNodes [block])
        (loadedNodes platform (m_IL + 1) (totalSize platform (blockNodes blocks))
          (rawBlocks platform starts (totalSize platform (blockNodes blocks)) [block])) :=
      sameNode_blocks (by simpa using formed) (by simpa using small) (by simpa using near) (m_IL + 1)
    simp only [blockNodes_cons, blockNodes_nil, List.append_nil, rawBlocks, loadedNodes] at same
    obtain ⟨node, rest, whole, -, instruction⟩ :=
      rawNodes_first valid (m_IL + 1) (totalSize platform (blockNodes blocks))
    refine ⟨?_, by rw [← branchTargets_rawNodes (m_IL + 1), branchTargets_sameNodes same]⟩
    obtain ⟨arguments, head, -⟩ := block.tail_switchArg formed
    rw [whole, head] at same
    rw [← instruction, (List.forall₂_cons.mp same).1.instruction_eq]

end Blocks

namespace ILRewriter

section Exported

variable {platform : Platform} {s : ILRewriter} {result : Exported} {front back : List Instr}

/-- The parts of an exported list, and where the second one starts. -/
theorem Assembled.cut (assembled : Assembled platform (front ++ back) nodes' s result) :
    ∃ front' back', nodes' = front' ++ back' ∧ List.Forall₂ (Widened platform) front front' ∧
      List.Forall₂ (Widened platform) back back' ∧
      result.rewriter.m_offset (rightOf m_IL (back.map Instr.ptr)) = totalSize platform front' := by
  obtain ⟨front', back', rfl, first, second⟩ := forall₂_split assembled.widening
  refine ⟨front', back', rfl, first, second, ?_⟩
  have nodup := assembled.laid.holds.ring.nodup
  rw [← widened_ptrs second, assembled.laid.starts _ ?_, startOf_cut platform nodup]
  cases back' with
  | nil => exact List.mem_cons_self ..
  | cons node rest => simp [rightOf]

theorem Assembled.codeEnd (assembled : Assembled platform nodes nodes' s result) :
    result.rewriter.m_offset m_IL = result.body.Code.length := by
  have whole : Assembled platform (nodes ++ []) nodes' s result := by rwa [List.append_nil]
  obtain ⟨front', back', rfl, -, none, place⟩ := whole.cut
  cases none
  rw [List.append_nil] at assembled
  rw [assembled.laid.code, length_encodeFrom]
  exact place

theorem Assembled.room (assembled : Assembled platform nodes nodes' s result) (p : Ptr) :
    startOf platform nodes' p < 2 ^ 32 :=
  Nat.lt_of_le_of_lt ((startOf_le nodes' p).trans assembled.laid.fits) (outputRoom_lt _)

/-- The exported code has an instruction for every one of the list, with the targets of its branches. -/
theorem Assembled.instrAt {block : Block}
    (assembled : Assembled platform (front ++ (block.nodes ++ back)) nodes' s result)
    (blocked : WellBlocked platform (front ++ (block.nodes ++ back))) (formed : block.WellFormed platform)
    (closed : Closed platform (front ++ (block.nodes ++ back))) :
    ∃ instr, instrAt platform result.body.Code (result.rewriter.m_offset block.head.ptr) = .ok instr ∧
      result.rewriter.m_offset block.head.ptr + instr.size platform =
        result.rewriter.m_offset (rightOf m_IL (back.map Instr.ptr)) ∧
      instr.instruction platform = block.head.instruction platform ∧
      instr.targets platform (result.rewriter.m_offset block.head.ptr) =
        (branchTargets platform block.nodes).map result.rewriter.m_offset := by
  obtain ⟨arguments, nodes, internal⟩ := block.tail_switchArg formed
  have between : ∀ node ∈ (block.nodes ++ back).head?, node.opcode ≠ platform.CEE_SWITCH_ARG := by
    rw [nodes]
    rintro node ⟨rfl⟩
    exact block.head_ne_switchArg formed
  obtain ⟨front', late', rfl, first, second, place⟩ := assembled.cut
  obtain ⟨mid', back', rfl, mid, last⟩ := forall₂_split second
  obtain ⟨block', formed', rfl, instruction⟩ := block.widened formed mid
  have here : rightOf m_IL ((block.nodes ++ back).map Instr.ptr) = block.head.ptr := by rw [nodes]; rfl
  rw [here] at place
  have near := everyAt_append.mp (everyAt_append.mp assembled.laid.near).2
  rw [Nat.zero_add] at near
  obtain ⟨instr, found, size, same, targets⟩ := instrAt_encoded back'
    ((blocked.split between).1.widened first) formed' (fun node _ => assembled.room node.operand) near.1
  refine ⟨instr, ?_, ?_, same.trans instruction, ?_⟩
  · rw [place, assembled.laid.code, found]
  · have past : Assembled platform ((front ++ block.nodes) ++ back) ((front' ++ block'.nodes) ++ back') s result := by
      simpa using assembled
    obtain ⟨before', after', whole, early, late, behind⟩ := past.cut
    obtain ⟨rfl, rfl⟩ := List.append_inj whole (by rw [early.length_eq.symm, List.length_append, List.length_append,
      first.length_eq, mid.length_eq])
    rw [behind, place, size, totalSize_append]
  · rw [place, targets, branchTargets_widened mid]
    refine List.map_congr_left fun p member => (assembled.laid.starts p ?_).symm
    obtain ⟨node, listed, rfl⟩ := List.mem_map.mp member
    obtain ⟨inBlock, branch⟩ := List.mem_filter.mp listed
    rw [widened_ptrs assembled.widening]
    exact closed node (by simp [inBlock]) (by simpa using branch)

/-- The command of an instruction of the exported list. -/
theorem Assembled.commandAt {block : Block} (EH : List EHInfo)
    (assembled : Assembled platform (front ++ (block.nodes ++ back)) nodes' s result)
    (blocked : WellBlocked platform (front ++ (block.nodes ++ back))) (formed : block.WellFormed platform)
    (closed : Closed platform (front ++ (block.nodes ++ back))) :
    ClrProfiling.commandAt platform result.body.Code EH (result.rewriter.m_offset block.head.ptr) = some {
      op := block.head.instruction platform
      place := protections EH (result.rewriter.m_offset block.head.ptr)
      next := result.rewriter.m_offset (rightOf m_IL (back.map Instr.ptr))
      targets := (branchTargets platform block.nodes).map result.rewriter.m_offset } := by
  obtain ⟨instr, found, size, same, targets⟩ := assembled.instrAt blocked formed closed
  rw [ClrProfiling.commandAt, found, ← size, ← same, ← targets]

theorem hook_formed {node : Instr} (hook : node.opcode ∈ hookOpcodes) :
    (Block.plain node).WellFormed platform := by
  simp only [hookOpcodes, List.mem_cons, List.not_mem_nil, or_false] at hook
  rcases hook with opcode | opcode | opcode | opcode <;>
    exact ⟨opcode ▸ platform.importable_oneByte (by decide), opcode ▸ by decide⟩

/-- What probes are made of stands in the exported code one behind the other. -/
theorem Assembled.corridor {nodes mid : List Instr} (EH : List EHInfo)
    (assembled : Assembled platform nodes nodes' s result) (split : nodes = front ++ (mid ++ back))
    (blocked : WellBlocked platform nodes) (closed : Closed platform nodes)
    (hooks : ∀ node ∈ mid, node.opcode ∈ hookOpcodes) :
    (bodyProgram platform result.body.Code EH).Corridor
      (result.rewriter.m_offset (rightOf m_IL ((mid ++ back).map Instr.ptr)))
      (mid.map (Instr.instruction platform)) (result.rewriter.m_offset (rightOf m_IL (back.map Instr.ptr))) := by
  induction mid generalizing front with
  | nil => exact .nil
  | cons node rest ih =>
    obtain ⟨hook, others⟩ := List.forall_mem_cons.mp hooks
    have behind := @ih (front ++ [node]) (by simp [split]) others
    subst split
    have single : Assembled platform
        (front ++ ((Block.plain node).nodes ++ (rest ++ back))) nodes' s result := assembled
    have here : (bodyProgram platform result.body.Code EH).fetch (result.rewriter.m_offset node.ptr) = some _ :=
      single.commandAt EH blocked (hook_formed hook) closed
    exact .cons here behind

end Exported

end ILRewriter

section Cuts

variable {platform : Platform}

/-- The nodes of the instructions behind a cut. -/
def nodesBehind (platform : Platform) (before after : List RawInstr) : List Instr :=
  (loadedNodes platform (m_IL + 1 + (before.map RawInstr.nodes).sum) (listingBytes platform before).length after).map
    (resolved platform (startNode platform (before ++ after)))

theorem importedNodes_cut (platform : Platform) (before after : List RawInstr) :
    ∃ front, importedNodes platform (before ++ after) = front ++ nodesBehind platform before after := by
  rw [importedNodes, loadedNodes_append, List.map_append, Nat.zero_add]
  exact ⟨_, rfl⟩

theorem startNode_cut (platform : Platform) (before after : List RawInstr) :
    startNode platform (before ++ after) (listingBytes platform before).length =
      rightOf m_IL ((nodesBehind platform before after).map Instr.ptr) := by
  cases after with
  | nil =>
    rw [List.append_nil, startNode_end]
    rfl
  | cons instr rest =>
    rw [startNode_start, nodesBehind, loadedNodes]
    cases instr <;> simp [rawNodes, rightOf]

theorem nodesBehind_cons (platform : Platform) (before : List RawInstr) (instr : RawInstr) (after : List RawInstr) :
    nodesBehind platform before (instr :: after) =
      (rawNodes platform (m_IL + 1 + (before.map RawInstr.nodes).sum) (listingBytes platform before).length instr).map
        (resolved platform (startNode platform (before ++ instr :: after))) ++
        nodesBehind platform (before ++ [instr]) after := by
  rw [nodesBehind, loadedNodes, List.map_append, nodesBehind]
  simp [listingBytes, RawInstr.size, Nat.add_assoc]

end Cuts

end ClrProfiling
