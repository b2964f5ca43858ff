import ClrProfiling.IL.Boundary
import ClrProfiling.IL.Relaxation

/-! The instructions of a node list: a node of its own, or a `switch` with the nodes of
its targets right behind it. -/

namespace ClrProfiling

open LinkedRing Word

/-- The nodes of one instruction. -/
inductive Block where
  | plain (node : Instr)
  | switch (node : Instr) (arguments : List Instr)
deriving DecidableEq, Repr

namespace Block

def head : Block → Instr
  | .plain node => node
  | .switch node _ => node

def nodes : Block → List Instr
  | .plain node => [node]
  | .switch node arguments => node :: arguments

/-- A `switch` counts its targets; every other instruction is one ImportIL has a node for. -/
def WellFormed (platform : Platform) : Block → Prop
  | .plain node => platform.Importable node.opcode ∧ node.opcode ≠ CEE_SWITCH
  | .switch node arguments => node.opcode = CEE_SWITCH ∧ node.operand % 2 ^ 32 = arguments.length ∧
      ∀ argument ∈ arguments, argument.opcode = platform.CEE_SWITCH_ARG

end Block

/-- The nodes of a sequence of instructions. -/
def blockNodes (blocks : List Block) : List Instr := blocks.flatMap Block.nodes

/-- A list made of whole instructions. -/
def WellBlocked (platform : Platform) (nodes : List Instr) : Prop :=
  ∃ blocks : List Block, (∀ block ∈ blocks, block.WellFormed platform) ∧ nodes = blockNodes blocks

section Blocks

variable {platform : Platform}

@[simp] theorem blockNodes_nil : blockNodes [] = [] := rfl

@[simp] theorem blockNodes_cons (block : Block) (rest : List Block) :
    blockNodes (block :: rest) = block.nodes ++ blockNodes rest := by
  simp [blockNodes]

@[simp] theorem blockNodes_append (before after : List Block) :
    blockNodes (before ++ after) = blockNodes before ++ blockNodes after := by
  simp [blockNodes]

theorem WellBlocked.append (before : WellBlocked platform first) (after : WellBlocked platform second) :
    WellBlocked platform (first ++ second) := by
  obtain ⟨blocks, formed, rfl⟩ := before
  obtain ⟨blocks', formed', rfl⟩ := after
  exact ⟨blocks ++ blocks', List.forall_mem_append.mpr ⟨formed, formed'⟩, by simp⟩

theorem wellBlocked_plain (importable : platform.Importable node.opcode) (notSwitch : node.opcode ≠ CEE_SWITCH) :
    WellBlocked platform [node] :=
  ⟨[.plain node], by simpa [Block.WellFormed] using ⟨importable, notSwitch⟩, rfl⟩

theorem Block.head_ne_switchArg {block : Block} (formed : block.WellFormed platform) :
    block.head.opcode ≠ platform.CEE_SWITCH_ARG := by
  cases block with
  | plain node => exact formed.1.ne_switchArg
  | switch node arguments =>
    rw [head, formed.1]
    exact platform.switchArg_ne_switch.symm

theorem Block.tail_switchArg {block : Block} (formed : block.WellFormed platform) :
    ∃ arguments, block.nodes = block.head :: arguments ∧
      ∀ argument ∈ arguments, argument.opcode = platform.CEE_SWITCH_ARG := by
  cases block with
  | plain node => exact ⟨[], rfl, by simp⟩
  | switch node arguments => exact ⟨arguments, rfl, formed.2.2⟩

/-- Whole instructions begin with no target. -/
theorem WellBlocked.head (blocked : WellBlocked platform nodes) :
    ∀ node ∈ nodes.head?, node.opcode ≠ platform.CEE_SWITCH_ARG := by
  obtain ⟨blocks, formed, rfl⟩ := blocked
  cases blocks with
  | nil => exact nofun
  | cons block rest =>
    have first := formed block (List.mem_cons_self ..)
    obtain ⟨arguments, nodes, -⟩ := Block.tail_switchArg first
    intro node member
    rw [blockNodes_cons, nodes] at member
    obtain rfl : block.head = node := by simpa using member
    exact Block.head_ne_switchArg first

/-- A cut in front of anything but a `switch` target falls between two instructions. -/
theorem WellBlocked.split (blocked : WellBlocked platform (before ++ after))
    (between : ∀ node ∈ after.head?, node.opcode ≠ platform.CEE_SWITCH_ARG) :
    WellBlocked platform before ∧ WellBlocked platform after := by
  obtain ⟨blocks, formed, split⟩ := blocked
  induction blocks generalizing before with
  | nil =>
    obtain ⟨rfl, rfl⟩ := List.append_eq_nil_iff.mp split
    exact ⟨⟨[], by simp, rfl⟩, ⟨[], by simp, rfl⟩⟩
  | cons block rest ih =>
    obtain ⟨first, others⟩ := List.forall_mem_cons.mp formed
    rw [blockNodes_cons] at split
    rcases List.append_eq_append_iff.mp split with ⟨inside, whole, remaining⟩ | ⟨inside, whole, remaining⟩
    · cases inside with
      | nil =>
        rw [List.append_nil] at whole
        rw [List.nil_append] at remaining
        exact ⟨⟨[block], by simpa using first, by simp [whole]⟩, ⟨rest, others, remaining⟩⟩
      | cons node inside =>
        obtain ⟨arguments, nodes, internal⟩ := Block.tail_switchArg first
        cases before with
        | nil => exact ⟨⟨[], by simp, rfl⟩, ⟨block :: rest, formed, by simpa using split⟩⟩
        | cons other before =>
          rw [nodes, List.cons_append, List.cons.injEq] at whole
          have member : node ∈ arguments := by rw [whole.2]; simp
          exact absurd (internal node member) (between node (by rw [remaining]; simp))
    · obtain ⟨earlier, later⟩ := ih others remaining.symm
      refine ⟨?_, later⟩
      rw [whole]
      exact WellBlocked.append ⟨[block], by simpa using first, by simp⟩ earlier

theorem WellBlocked.insert (blocked : WellBlocked platform (before ++ after))
    (between : ∀ node ∈ after.head?, node.opcode ≠ platform.CEE_SWITCH_ARG)
    (importable : platform.Importable node.opcode) (notSwitch : node.opcode ≠ CEE_SWITCH) :
    WellBlocked platform (before ++ node :: after) := by
  obtain ⟨earlier, later⟩ := blocked.split between
  exact earlier.append ((wellBlocked_plain importable notSwitch).append later)

end Blocks

section Sources

variable {platform : Platform}

private theorem rawNodes_wellBlocked {instr : RawInstr} (valid : instr.Valid platform) (find : Nat → Ptr)
    (brk : Ptr) (offset : Nat) :
    WellBlocked platform ((rawNodes platform brk offset instr).map (resolved platform find)) := by
  cases instr with
  | plain opcode operand =>
    refine wellBlocked_plain ?_ ?_
    · rw [resolved_opcode]
      exact valid.1
    · rw [resolved_opcode]
      exact valid.2.1
  | switch targets =>
    have head : resolved platform find ⟨brk, CEE_SWITCH, targets.length⟩ = ⟨brk, CEE_SWITCH, targets.length⟩ :=
      if_neg (Instr.not_isBranch_of_switch rfl)
    have nodes : (rawNodes platform brk offset (.switch targets)).map (resolved platform find) =
        blockNodes [.switch ⟨brk, CEE_SWITCH, targets.length⟩
          ((targetNodes platform (wrap32 (offset + 1 + 4 + 4 * targets.length)) (brk + 1) targets).map
            (resolved platform find))] := by
      rw [rawNodes, List.map_cons, head]
      simp [Block.nodes]
    refine ⟨_, ?_, nodes⟩
    rw [List.forall_mem_singleton]
    refine ⟨rfl, ?_, ?_⟩
    · rw [List.length_map, length_targetNodes]
      exact Nat.mod_eq_of_lt valid.1
    · intro argument member
      obtain ⟨node, listed, rfl⟩ := List.mem_map.mp member
      rw [resolved_opcode, targetNodes_opcode listed]

/-- Import leaves whole instructions. -/
theorem importedNodes_wellBlocked {instrs : List RawInstr} (valid : ∀ instr ∈ instrs, instr.Valid platform) :
    WellBlocked platform (importedNodes platform instrs) := by
  have loaded (find : Nat → Ptr) (instrs : List RawInstr) (valid : ∀ instr ∈ instrs, instr.Valid platform)
      (brk : Ptr) (offset : Nat) :
      WellBlocked platform ((loadedNodes platform brk offset instrs).map (resolved platform find)) := by
    induction instrs generalizing brk offset with
    | nil => exact ⟨[], by simp, rfl⟩
    | cons instr rest ih =>
      obtain ⟨first, others⟩ := List.forall_mem_cons.mp valid
      rw [loadedNodes, List.map_append]
      exact (rawNodes_wellBlocked first find brk offset).append (ih others _ _)
  exact loaded _ instrs valid _ _

end Sources

end ClrProfiling
