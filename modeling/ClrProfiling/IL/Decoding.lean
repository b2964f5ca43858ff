import ClrProfiling.IL.Blocks
import ClrProfiling.IL.RoundTrip

/-! Decoding what Export has written: the same instructions, and displacements that lead
to the offsets of the nodes they were written for. -/

namespace ClrProfiling

open LinkedRing Word ILRewriter

section Widening

variable {platform : Platform}

theorem forall₂_split {relation : Instr → Instr → Prop} {before after nodes' : List Instr}
    (related : List.Forall₂ relation (before ++ after) nodes') :
    ∃ before' after', nodes' = before' ++ after' ∧ List.Forall₂ relation before before' ∧
      List.Forall₂ relation after after' := by
  induction before generalizing nodes' with
  | nil => exact ⟨[], nodes', rfl, .nil, related⟩
  | cons node rest ih =>
    cases related with
    | cons first others =>
      obtain ⟨before', after', rfl, early, late⟩ := ih others
      exact ⟨_ :: before', after', rfl, .cons first early, late⟩

theorem widened_importable (short : platform.s_OpCodeFlags opcode = 0x11) :
    platform.Importable (widened opcode) ∧ widened opcode ≠ CEE_SWITCH := by
  have range := short_range short
  unfold widened
  simp only [CEE_BR_S, CEE_BLT_UN_S, CEE_LEAVE_S, CEE_BR, CEE_LEAVE, CEE_SWITCH] at range ⊢
  split
  · exact ⟨platform.importable_oneByte (by decide), by decide⟩
  · exact ⟨platform.importable_oneByte (by omega), by omega⟩

private theorem widened_block {block : Block} (formed : block.WellFormed platform)
    (widening : List.Forall₂ (Widened platform) block.nodes nodes') : WellBlocked platform nodes' := by
  cases block with
  | plain node =>
    cases widening with
    | cons first none =>
      cases none
      rcases first.2.2 with same | ⟨short, long⟩
      · exact wellBlocked_plain (same ▸ formed.1) (same ▸ formed.2)
      · obtain ⟨importable, notSwitch⟩ := widened_importable short
        exact wellBlocked_plain (long ▸ importable) (long ▸ notSwitch)
  | switch node arguments =>
    cases widening with
    | @cons _ node' _ arguments' first others =>
      have opcode : node'.opcode = CEE_SWITCH := by
        rcases first.2.2 with same | ⟨short, -⟩
        · rw [same, formed.1]
        · rw [formed.1, platform.flags_CEE_SWITCH] at short
          exact absurd short (by decide)
      refine ⟨[.switch node' arguments'], ?_, by simp [Block.nodes]⟩
      rw [List.forall_mem_singleton]
      refine ⟨opcode, by rw [first.2.1, formed.2.1, others.length_eq], fun argument' member => ?_⟩
      obtain ⟨argument, listed, same⟩ := widened_source others member
      have internal := formed.2.2 argument listed
      rcases same.2.2 with same | ⟨short, -⟩
      · rw [same, internal]
      · rw [internal, platform.flags_switchArg] at short
        exact absurd short (by decide)

/-- Widening keeps whole instructions whole. -/
theorem WellBlocked.widened (blocked : WellBlocked platform nodes)
    (widening : List.Forall₂ (Widened platform) nodes nodes') : WellBlocked platform nodes' := by
  obtain ⟨blocks, formed, rfl⟩ := blocked
  induction blocks generalizing nodes' with
  | nil =>
    cases widening
    exact ⟨[], by simp, rfl⟩
  | cons block rest ih =>
    obtain ⟨first, others⟩ := List.forall_mem_cons.mp formed
    rw [blockNodes_cons] at widening
    obtain ⟨here, later, rfl, early, late⟩ := forall₂_split widening
    exact (widened_block first early).append (ih others late)

end Widening

section Raw

variable (platform : Platform) (starts : Ptr → Nat)

/-- The operand the code has for a node at `place`. -/
def rawOperand (place : Nat) (node : Instr) : Nat :=
  match platform.s_OpCodeFlags node.opcode with
  | 0x11 => sub32 (starts node.operand) (place + nodeSize platform node.opcode) % 256
  | 0x14 => sub32 (starts node.operand) (place + nodeSize platform node.opcode)
  | _ => node.operand % 256 ^ operandWidth platform node.opcode

/-- The instruction the code has for a block at `place`. -/
def Block.raw (place : Nat) : Block → RawInstr
  | .plain node => .plain node.opcode (rawOperand platform starts place node)
  | .switch _ arguments =>
    .switch (arguments.map fun argument =>
      sub32 (starts argument.operand) (wrap32 (place + 1 + 4 + 4 * arguments.length)))

def rawBlocks : (place : Nat) → List Block → List RawInstr
  | _, [] => []
  | place, block :: rest =>
    block.raw platform starts place :: rawBlocks (place + totalSize platform block.nodes) rest

end Raw

section Raw

variable {platform : Platform} {starts : Ptr → Nat}

theorem Block.raw_valid {block : Block} (formed : block.WellFormed platform) (place : Nat) :
    (block.raw platform starts place).Valid platform := by
  cases block with
  | plain node =>
    refine ⟨formed.1, formed.2, ?_⟩
    have small : ∀ value, value % 256 ^ operandWidth platform node.opcode < 256 ^ operandWidth platform node.opcode :=
      fun value => Nat.mod_lt _ (Nat.pow_pos (by decide))
    unfold rawOperand
    split
    · rename_i short
      rw [operandWidth, short]
      exact Nat.mod_lt _ (by decide)
    · rename_i long
      rw [operandWidth, long]
      exact sub32_lt ..
    · exact small _
  | switch node arguments =>
    refine ⟨?_, fun target member => ?_⟩
    · rw [List.length_map, ← formed.2.1]
      exact Nat.mod_lt _ (by decide)
    · obtain ⟨argument, -, rfl⟩ := List.mem_map.mp member
      exact sub32_lt ..

theorem Block.raw_size {block : Block} (formed : block.WellFormed platform) (place : Nat) :
    (block.raw platform starts place).size platform = totalSize platform block.nodes := by
  cases block with
  | plain node =>
    rw [Block.raw, size_plain, Block.nodes, totalSize_cons, totalSize_nil, Nat.add_zero,
      nodeSize_plain formed.1 formed.2]
  | switch node arguments =>
    rw [Block.raw, size_switch, Block.nodes, totalSize_cons, formed.1, nodeSize_switch, totalSize_arguments formed.2.2,
      List.length_map]

theorem Block.raw_nodes (block : Block) (place : Nat) :
    (block.raw platform starts place).nodes = block.nodes.length := by
  cases block <;> simp [Block.raw, Block.nodes, RawInstr.nodes]

private theorem encode_arguments {arguments : List Instr}
    (internal : ∀ argument ∈ arguments, argument.opcode = platform.CEE_SWITCH_ARG) (base place : Nat)
    (rest : List Instr) :
    encodeFrom platform starts base place (arguments ++ rest) =
      (arguments.map fun argument => sub32 (starts argument.operand) base).flatMap (LittleEndian.encode 4) ++
        encodeFrom platform starts base (place + 4 * arguments.length) rest := by
  induction arguments generalizing place with
  | nil => rfl
  | cons argument others ih =>
    obtain ⟨first, internal⟩ := List.forall_mem_cons.mp internal
    have branch : argument.isBranch platform := .of_switchArg first
    rw [List.cons_append, encodeFrom, fixedBytes_switchArg first, slotBytes, if_pos first, baseBehind_branch _ _ branch,
      first, nodeSize_switchArg, ih internal, List.map_cons, List.flatMap_cons, List.length_cons, List.nil_append,
      List.append_assoc]
    congr 3
    omega

private theorem nodeSize_pos_of_block {block : Block} (formed : block.WellFormed platform) :
    ∀ node ∈ block.nodes, 0 < nodeSize platform node.opcode := by
  intro node member
  have internal (argument : Instr) (same : argument.opcode = platform.CEE_SWITCH_ARG) :
      0 < nodeSize platform argument.opcode := by
    rw [same, nodeSize_switchArg]
    decide
  cases block with
  | plain other =>
    obtain rfl := List.mem_singleton.mp member
    have width := length_opcodeBytes node.opcode
    rw [nodeSize_plain formed.1 formed.2]
    split at width <;> omega
  | switch other arguments =>
    rcases List.mem_cons.mp member with rfl | listed
    · rw [formed.1, nodeSize_switch]
      decide
    · exact internal node (formed.2.2 node listed)

theorem nodeSize_pos (blocked : WellBlocked platform nodes) (member : node ∈ nodes) :
    0 < nodeSize platform node.opcode := by
  obtain ⟨blocks, formed, rfl⟩ := blocked
  obtain ⟨block, listed, inside⟩ := List.mem_flatMap.mp member
  exact nodeSize_pos_of_block (formed block listed) node inside

/-- The bytes of a whole instruction. -/
theorem encode_block (starts : Ptr → Nat) {block : Block} (formed : block.WellFormed platform) (base place : Nat)
    (rest : List Instr) :
    ∃ base', encodeFrom platform starts base place (block.nodes ++ rest) =
      (block.raw platform starts place).bytes platform ++
        encodeFrom platform starts base' (place + totalSize platform block.nodes) rest := by
  cases block with
  | plain node =>
    obtain ⟨importable, notSwitch⟩ := formed
    have external := importable.ne_switchArg
    refine ⟨baseBehind base place node, ?_⟩
    have bytes : fixedBytes platform node ++ slotBytes platform starts base place node =
        ((Block.plain node).raw platform starts place).bytes platform := by
      have flags := platform.flags_cases node.opcode
      simp only [List.mem_cons, List.not_mem_nil, or_false] at flags
      simp only [Block.raw, RawInstr.bytes, RawInstr.opcode, RawInstr.operandBytes, fixedBytes,
        headBytes_eq importable, List.append_assoc, List.append_cancel_left_eq, valueBytes, slotBytes, if_neg external,
        rawOperand, operandWidth]
      rcases flags with flags | flags | flags | flags | flags | flags | flags | flags
      case inr.inr.inr.inr.inr.inr.inr => exact absurd ((platform.flags_switch importable.1).mp flags) notSwitch
      all_goals simp only [flags, OPCODEFLAGS_SizeMask]
      case inl => rfl
      case inr.inr.inr.inr.inr.inl => exact (LittleEndian.encode_mod 1 _).symm
      case inr.inr.inr.inr.inr.inr.inl => rfl
      all_goals
        rw [List.append_nil]
        exact (LittleEndian.encode_mod _ _).symm
    rw [Block.nodes, List.singleton_append, encodeFrom, bytes, totalSize_cons, totalSize_nil, Nat.add_zero]
  | switch node arguments =>
    obtain ⟨opcode, count, internal⟩ := formed
    have importable : platform.Importable CEE_SWITCH := platform.importable_oneByte (by decide)
    have noSlot : slotWidth platform node = 0 := by
      simp [slotWidth, opcode, platform.flags_CEE_SWITCH, OPCODEFLAGS_BranchTarget]
    have fixed : fixedBytes platform node = opcodeBytes CEE_SWITCH ++ LittleEndian.encode 4 arguments.length := by
      rw [← count]
      simp only [fixedBytes, opcode, headBytes_eq importable, valueBytes, platform.flags_CEE_SWITCH]
      exact congrArg _ (LittleEndian.encode_mod 4 _).symm
    have behind : baseBehind base place node = wrap32 (place + 1 + 4 + 4 * arguments.length) := by
      rw [baseBehind, if_pos opcode, count]
      congr 1
      omega
    refine ⟨wrap32 (place + 1 + 4 + 4 * arguments.length), ?_⟩
    rw [Block.nodes, List.cons_append, encodeFrom, fixed, behind, opcode, nodeSize_switch,
      List.eq_nil_of_length_eq_zero ((length_slotBytes ..).trans noSlot), List.append_nil,
      encode_arguments internal, totalSize_cons, opcode, nodeSize_switch, totalSize_arguments internal]
    simp [Block.raw, RawInstr.bytes, RawInstr.opcode, RawInstr.operandBytes, Nat.add_assoc]

theorem encode_blocks {blocks : List Block} (formed : ∀ block ∈ blocks, block.WellFormed platform) (base place : Nat) :
    encodeFrom platform starts base place (blockNodes blocks) =
      listingBytes platform (rawBlocks platform starts place blocks) := by
  induction blocks generalizing base place with
  | nil => rfl
  | cons block rest ih =>
    obtain ⟨first, others⟩ := List.forall_mem_cons.mp formed
    obtain ⟨base', bytes⟩ := encode_block starts first base place (blockNodes rest)
    rw [blockNodes_cons, bytes, ih others, rawBlocks, listingBytes_cons]

theorem rawBlocks_valid {blocks : List Block} (formed : ∀ block ∈ blocks, block.WellFormed platform) (place : Nat) :
    ∀ instr ∈ rawBlocks platform starts place blocks, instr.Valid platform := by
  induction blocks generalizing place with
  | nil => simp [rawBlocks]
  | cons block rest ih =>
    obtain ⟨first, others⟩ := List.forall_mem_cons.mp formed
    exact List.forall_mem_cons.mpr ⟨Block.raw_valid first place, ih others _⟩

end Raw

section SameNode

/-- The width at which the code keeps the operand of an opcode. -/
def valueWidth (platform : Platform) (opcode : Nat) : Nat :=
  if platform.s_OpCodeFlags opcode = 0x20 then 4 else operandWidth platform opcode

/-- A decoded node against the one it was written for: its opcode or the long counterpart,
the offset of its target, or an operand that agrees at the width of the opcode. -/
structure SameNode (platform : Platform) (starts : Ptr → Nat) (node decoded : Instr) : Prop where
  opcode : decoded.opcode = node.opcode ∨
    platform.s_OpCodeFlags node.opcode = 0x11 ∧ decoded.opcode = widened node.opcode
  target : node.isBranch platform → decoded.operand = starts node.operand
  value : ¬node.isBranch platform →
    decoded.operand % 256 ^ valueWidth platform node.opcode = node.operand % 256 ^ valueWidth platform node.opcode

variable {platform : Platform} {starts : Ptr → Nat}

private theorem sameNode_plain {node : Instr} (formed : (Block.plain node).WellFormed platform)
    (small : starts node.operand < 2 ^ 32) (near : ¬FarShort platform starts place node) (brk : Ptr) :
    SameNode platform starts node
      ⟨brk, node.opcode, storedOperand platform place node.opcode (rawOperand platform starts place node)⟩ := by
  obtain ⟨importable, notSwitch⟩ := formed
  have size := nodeSize_plain importable notSwitch
  refine ⟨.inl rfl, fun branch => ?_, fun plain => ?_⟩
  · dsimp only
    rcases branch_flags branch with short | long
    · have width : operandWidth platform node.opcode = 1 := by rw [operandWidth, short]; rfl
      have fits : fitsInt8 (sub32 (starts node.operand) (place + nodeSize platform node.opcode)) = true := by
        by_contra far
        exact near ⟨short, by simpa using far⟩
      rw [storedOperand_short short, rawOperand]
      simp only [short]
      rw [fitsInt8_eq fits, Nat.add_assoc place, ← width, ← size, add_sub32, wrap32_of_lt small]
    · have width : operandWidth platform node.opcode = 4 := by rw [operandWidth, long]; rfl
      rw [storedOperand_long long, rawOperand]
      simp only [long]
      rw [Nat.add_assoc place, ← width, ← size, add_sub32, wrap32_of_lt small]
  · have notTable : platform.s_OpCodeFlags node.opcode ≠ 0x20 := fun isSwitch =>
      notSwitch ((platform.flags_switch importable.1).mp isSwitch)
    have flags := platform.flags_cases node.opcode
    simp only [List.mem_cons, List.not_mem_nil, or_false] at flags
    rw [storedOperand, rawOperand, valueWidth, if_neg notTable]
    rcases flags with flags | flags | flags | flags | flags | flags | flags | flags
    case inr.inr.inr.inr.inr.inl => exact absurd (by simp [Instr.isBranch, flags, OPCODEFLAGS_BranchTarget]) plain
    case inr.inr.inr.inr.inr.inr.inl => exact absurd (by simp [Instr.isBranch, flags, OPCODEFLAGS_BranchTarget]) plain
    all_goals simp [flags]

private theorem sameNode_arguments {arguments : List Instr}
    (internal : ∀ argument ∈ arguments, argument.opcode = platform.CEE_SWITCH_ARG)
    (small : ∀ argument ∈ arguments, starts argument.operand < 2 ^ 32) (base : Nat) (brk : Ptr) :
    List.Forall₂ (SameNode platform starts) arguments
      (targetNodes platform base brk (arguments.map fun argument => sub32 (starts argument.operand) base)) := by
  induction arguments generalizing brk with
  | nil => exact .nil
  | cons argument rest ih =>
    obtain ⟨first, internal⟩ := List.forall_mem_cons.mp internal
    obtain ⟨smallHere, small⟩ := List.forall_mem_cons.mp small
    refine .cons ⟨.inl first.symm, fun _ => ?_, fun plain => absurd ?_ plain⟩ (ih internal small (brk + 1))
    · dsimp only
      rw [add_sub32, wrap32_of_lt smallHere]
    · exact .of_switchArg first

private theorem sameNode_block {block : Block} (formed : block.WellFormed platform)
    (small : ∀ node ∈ block.nodes, starts node.operand < 2 ^ 32)
    (near : EveryAt platform (fun place node => ¬FarShort platform starts place node) place block.nodes) (brk : Ptr) :
    List.Forall₂ (SameNode platform starts) block.nodes
      (rawNodes platform brk place (block.raw platform starts place)) := by
  cases block with
  | plain node => exact .cons (sameNode_plain formed (small node (List.mem_singleton_self _)) near.1 brk) .nil
  | switch node arguments =>
    have plain : ¬node.isBranch platform := Instr.not_isBranch_of_switch formed.1
    rw [Block.raw, rawNodes, List.length_map]
    refine .cons ⟨.inl formed.1.symm, fun branch => absurd branch plain, fun _ => ?_⟩
      (sameNode_arguments formed.2.2 (fun argument member => small argument (List.mem_cons_of_mem _ member)) _ _)
    rw [valueWidth, formed.1, platform.flags_CEE_SWITCH, if_pos rfl, ← formed.2.1]
    exact Nat.mod_mod _ _

/-- Whole instructions are decoded node for node. -/
theorem sameNode_blocks {blocks : List Block} (formed : ∀ block ∈ blocks, block.WellFormed platform)
    (small : ∀ node ∈ blockNodes blocks, starts node.operand < 2 ^ 32)
    (near : EveryAt platform (fun place node => ¬FarShort platform starts place node) place (blockNodes blocks))
    (brk : Ptr) :
    List.Forall₂ (SameNode platform starts) (blockNodes blocks)
      (loadedNodes platform brk place (rawBlocks platform starts place blocks)) := by
  induction blocks generalizing brk place with
  | nil => exact .nil
  | cons block rest ih =>
    obtain ⟨first, others⟩ := List.forall_mem_cons.mp formed
    rw [blockNodes_cons] at small near ⊢
    obtain ⟨nearHere, nearLater⟩ := everyAt_append.mp near
    rw [rawBlocks, loadedNodes, Block.raw_size first]
    exact List.rel_append
      (sameNode_block first (fun node member => small node (List.mem_append_left _ member)) nearHere brk)
      (ih others (fun node member => small node (List.mem_append_right _ member)) nearLater _)

private theorem SameNode.of_widened (widening : Widened platform node node')
    (same : SameNode platform starts node' decoded) :
    SameNode platform starts node decoded := by
  refine ⟨?_, fun branch => ?_, fun plain => ?_⟩
  · rcases widening.2.2 with kept | ⟨short, long⟩
    · rw [← kept]
      exact same.opcode
    · rcases same.opcode with kept | ⟨short', -⟩
      · exact .inr ⟨short, kept.trans long⟩
      · rw [long, flags_widened short] at short'
        exact absurd short' (by decide)
  · rw [← widening.2.1]
    exact same.target (widening.isBranch_iff.mpr branch)
  · have plain' : ¬node'.isBranch platform := fun branch => plain (widening.isBranch_iff.mp branch)
    have kept : node'.opcode = node.opcode := widening.2.2.resolve_right fun wide =>
      plain (by simp [Instr.isBranch, wide.1, OPCODEFLAGS_BranchTarget])
    rw [← widening.2.1, ← kept]
    exact same.value plain'

theorem forall₂_sameNode {nodes nodes' decoded : List Instr}
    (widening : List.Forall₂ (Widened platform) nodes nodes')
    (same : List.Forall₂ (SameNode platform starts) nodes' decoded) :
    List.Forall₂ (SameNode platform starts) nodes decoded := by
  induction widening generalizing decoded with
  | nil => exact same
  | cons here _ ih =>
    cases same with
    | cons first others => exact .cons (first.of_widened here) (ih others)

end SameNode

section Heads

variable {platform : Platform} {starts : Ptr → Nat}

theorem rawBlocks_append (place : Nat) (before after : List Block) :
    rawBlocks platform starts place (before ++ after) =
      rawBlocks platform starts place before ++
        rawBlocks platform starts (place + totalSize platform (blockNodes before)) after := by
  induction before generalizing place with
  | nil => rfl
  | cons block rest ih => simp [rawBlocks, ih, totalSize_append, Nat.add_assoc]

theorem rawBlocks_size {blocks : List Block} (formed : ∀ block ∈ blocks, block.WellFormed platform)
    (place : Nat) :
    (listingBytes platform (rawBlocks platform starts place blocks)).length = totalSize platform
    (blockNodes blocks) := by
  rw [← encode_blocks formed 0 place, length_encodeFrom]

theorem rawBlocks_nodes (place : Nat) (blocks : List Block) :
    ((rawBlocks platform starts place blocks).map RawInstr.nodes).sum = (blockNodes blocks).length := by
  induction blocks generalizing place with
  | nil => rfl
  | cons block rest ih => simp [rawBlocks, ih, Block.raw_nodes]

/-- The offset of an instruction is looked up as the node it is decoded to. -/
theorem lookup_blocks (whole before after : List Block) (split : whole = before ++ after)
    (formed : ∀ block ∈ whole, block.WellFormed platform) (nodup : ((blockNodes whole).map Instr.ptr).Nodup) :
    List.Forall₂ (fun node decoded => node.opcode ≠ platform.CEE_SWITCH_ARG →
        startNode platform (rawBlocks platform starts 0 whole) (startOf platform (blockNodes whole) node.ptr) =
          decoded.ptr)
      (blockNodes after)
      (loadedNodes platform (m_IL + 1 + (blockNodes before).length) (totalSize platform (blockNodes before))
        (rawBlocks platform starts (totalSize platform (blockNodes before)) after)) := by
  induction after generalizing before with
  | nil => exact .nil
  | cons block rest ih =>
    have later := ih (before ++ [block]) (by simp [split])
    have nodes : blockNodes (before ++ [block]) = blockNodes before ++ block.nodes := by simp
    rw [nodes, List.length_append, totalSize_append, ← Nat.add_assoc] at later
    have first : block.WellFormed platform := formed block (by simp [split])
    have early : ∀ block ∈ before, block.WellFormed platform := fun block member =>
      formed block (by simp [split, member])
    rw [blockNodes_cons, rawBlocks, loadedNodes, Block.raw_size first, length_rawNodes, Block.raw_nodes]
    refine List.rel_append ?_ later
    obtain ⟨arguments, nodes, internal⟩ := Block.tail_switchArg first
    have start : startOf platform (blockNodes whole) block.head.ptr = totalSize platform (blockNodes before) := by
      rw [split, blockNodes_append, blockNodes_cons, nodes, List.cons_append] at nodup ⊢
      rw [List.map_append, List.map_cons, List.nodup_middle, List.nodup_cons] at nodup
      rw [startOf_append platform fun member => nodup.1 (List.mem_append_left _ member), startOf_head, Nat.add_zero]
    have lookup : startNode platform (rawBlocks platform starts 0 whole) (totalSize platform (blockNodes before)) =
        m_IL + 1 + (blockNodes before).length := by
      rw [split, rawBlocks_append, rawBlocks, ← rawBlocks_size early 0, startNode_start, rawBlocks_nodes]
    have head : startNode platform (rawBlocks platform starts 0 whole)
        (startOf platform (blockNodes whole) block.head.ptr) = m_IL + 1 + (blockNodes before).length := by
      rw [start, lookup]
    cases block with
    | plain node => exact .cons (fun _ => head) .nil
    | switch node list =>
      -- The nodes of the targets are reached from the `switch` alone and need no lookup.
      have internal : ∀ argument ∈ list, argument.opcode = platform.CEE_SWITCH_ARG := first.2.2
      refine .cons (fun _ => head) ?_
      rw [List.forall₂_iff_get]
      refine ⟨by simp, fun i inside _ external => absurd ?_ external⟩
      exact internal _ (List.get_mem ..)

end Heads

end ClrProfiling
