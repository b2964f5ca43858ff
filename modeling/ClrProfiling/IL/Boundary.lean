import ClrProfiling.IL.Resolution

/-! Instruction boundaries of a method body, and the nodes the offset table gives for them. -/

namespace ClrProfiling

open LinkedRing Word

section Boundaries

variable (platform : Platform)

/-- A position where an instruction starts, or the code end. -/
def Boundary (instrs : List RawInstr) (position : Nat) : Prop :=
  ∃ before after, instrs = before ++ after ∧ position = (listingBytes platform before).length

/-- The positions an instruction at `offset` refers to. -/
def RawInstr.targets (offset : Nat) : RawInstr → List Nat
  | .plain opcode operand =>
    if platform.s_OpCodeFlags opcode &&& OPCODEFLAGS_BranchTarget ≠ 0 then
      [storedOperand platform offset opcode operand]
    else []
  | .switch targets => targets.map fun target => wrap32 (offset + 1 + 4 + 4 * targets.length + target)

/-- Every branch, leave and switch target is an instruction boundary. -/
def WellTargeted (instrs : List RawInstr) : Prop :=
  ∀ before instr after, instrs = before ++ instr :: after →
    ∀ target ∈ instr.targets platform (listingBytes platform before).length, Boundary platform instrs target

end Boundaries

theorem Boundary.le {platform : Platform} {instrs : List RawInstr} (boundary : Boundary platform instrs position) :
    position ≤ (listingBytes platform instrs).length := by
  obtain ⟨before, after, rfl, rfl⟩ := boundary
  simp [listingBytes]

section Counting

variable {platform : Platform}

/-- The number of nodes of an instruction. -/
def RawInstr.nodes : RawInstr → Nat
  | .plain .. => 1
  | .switch targets => targets.length + 1

@[simp] theorem length_targetNodes (base : Nat) (brk : Ptr) (targets : List Nat) :
    (targetNodes platform base brk targets).length = targets.length := by
  induction targets generalizing brk with
  | nil => rfl
  | cons target rest ih => simp [targetNodes, ih]

@[simp] theorem length_rawNodes (brk : Ptr) (offset : Nat) (instr : RawInstr) :
    (rawNodes platform brk offset instr).length = instr.nodes := by
  cases instr <;> simp [rawNodes, RawInstr.nodes]

@[simp] theorem length_loadedNodes (brk : Ptr) (offset : Nat) (instrs : List RawInstr) :
    (loadedNodes platform brk offset instrs).length = (instrs.map RawInstr.nodes).sum := by
  induction instrs generalizing brk offset with
  | nil => rfl
  | cons instr rest ih => simp [loadedNodes, ih]

theorem loadedNodes_append (brk : Ptr) (offset : Nat) (before after : List RawInstr) :
    loadedNodes platform brk offset (before ++ after) =
      loadedNodes platform brk offset before ++
        loadedNodes platform (brk + (before.map RawInstr.nodes).sum)
          (offset + (listingBytes platform before).length) after := by
  induction before generalizing brk offset with
  | nil => simp [loadedNodes, listingBytes]
  | cons instr rest ih =>
    simp only [List.cons_append, loadedNodes, ih, List.append_assoc, length_rawNodes, List.map_cons, List.sum_cons,
      listingBytes, List.flatMap_cons, List.length_append, Nat.add_assoc, RawInstr.size]

private theorem targetNodes_ptrs (base : Nat) (brk : Ptr) (targets : List Nat) :
    (targetNodes platform base brk targets).map Instr.ptr = List.range' brk targets.length := by
  induction targets generalizing brk with
  | nil => rfl
  | cons target rest ih => simp [targetNodes, ih, List.range'_succ]

private theorem rawNodes_ptrs (brk : Ptr) (offset : Nat) (instr : RawInstr) :
    (rawNodes platform brk offset instr).map Instr.ptr = List.range' brk instr.nodes := by
  cases instr with
  | plain => rfl
  | switch targets => simp [rawNodes, RawInstr.nodes, targetNodes_ptrs, List.range'_succ]

theorem loadedNodes_ptrs (brk : Ptr) (offset : Nat) (instrs : List RawInstr) :
    (loadedNodes platform brk offset instrs).map Instr.ptr =
      List.range' brk (instrs.map RawInstr.nodes).sum := by
  induction instrs generalizing brk offset with
  | nil => rfl
  | cons instr rest ih =>
    rw [loadedNodes, List.map_append, rawNodes_ptrs, ih, length_rawNodes, List.map_cons, List.sum_cons,
      ← List.range'_append_1]

/-- The opcodes of the nodes of an instruction. -/
def RawInstr.nodeOpcodes (platform : Platform) : RawInstr → List Nat
  | .plain opcode _ => [opcode]
  | .switch targets => CEE_SWITCH :: List.replicate targets.length platform.CEE_SWITCH_ARG

private theorem targetNodes_opcodes (base : Nat) (brk : Ptr) (targets : List Nat) :
    (targetNodes platform base brk targets).map Instr.opcode =
    List.replicate targets.length platform.CEE_SWITCH_ARG := by
  induction targets generalizing brk with
  | nil => rfl
  | cons target rest ih => simp [targetNodes, ih, List.replicate_succ]

private theorem loadedNodes_opcodes (brk : Ptr) (offset : Nat) (instrs : List RawInstr) :
    (loadedNodes platform brk offset instrs).map Instr.opcode = instrs.flatMap (RawInstr.nodeOpcodes platform) := by
  induction instrs generalizing brk offset with
  | nil => rfl
  | cons instr rest ih =>
    have own : (rawNodes platform brk offset instr).map Instr.opcode = instr.nodeOpcodes platform := by
      cases instr with
      | plain => rfl
      | switch targets => simp [rawNodes, RawInstr.nodeOpcodes, targetNodes_opcodes]
    rw [loadedNodes, List.map_append, own, ih, List.flatMap_cons]

theorem importedNodes_opcodes (platform : Platform) (instrs : List RawInstr) :
    (importedNodes platform instrs).map Instr.opcode = instrs.flatMap (RawInstr.nodeOpcodes platform) := by
  rw [importedNodes, List.map_map, ← loadedNodes_opcodes (m_IL + 1) 0]
  exact List.map_congr_left fun node _ => resolved_opcode ..

theorem headAt_append (brk : Ptr) (offset : Nat) (before : List RawInstr) (instr : RawInstr) (after : List RawInstr) :
    headAt platform brk offset (before ++ instr :: after) (offset + (listingBytes platform before).length) =
      some (brk + (before.map RawInstr.nodes).sum) := by
  induction before generalizing brk offset with
  | nil => simp [headAt, listingBytes]
  | cons first rest ih =>
    have positive := first.size_pos platform
    have later := ih (brk + first.nodes) (offset + first.size platform)
    rw [List.cons_append, headAt, if_neg, length_rawNodes]
    · simpa [listingBytes, RawInstr.size, Nat.add_assoc] using later
    · simp only [listingBytes, List.flatMap_cons, List.length_append]
      rw [← RawInstr.size]
      omega

theorem headAt_eq_some {instrs : List RawInstr} (found : headAt platform brk offset instrs position = some p) :
    ∃ before instr after, instrs = before ++ instr :: after ∧
      position = offset + (listingBytes platform before).length ∧ p = brk + (before.map RawInstr.nodes).sum := by
  induction instrs generalizing brk offset with
  | nil => simp [headAt] at found
  | cons instr rest ih =>
    rw [headAt] at found
    split at found
    · rename_i here
      cases found
      exact ⟨[], instr, rest, rfl, by simpa [listingBytes] using here, by simp⟩
    · obtain ⟨before, last, after, rfl, place, node⟩ := ih found
      refine ⟨instr :: before, last, after, rfl, ?_, ?_⟩
      · simpa [listingBytes, RawInstr.size, Nat.add_assoc] using place
      · simpa [Nat.add_assoc] using node

end Counting

section StartNode

variable {platform : Platform}

theorem startNode_start (before : List RawInstr) (instr : RawInstr) (after : List RawInstr) :
    startNode platform (before ++ instr :: after) (listingBytes platform before).length =
      m_IL + 1 + (before.map RawInstr.nodes).sum := by
  have found : headAt platform (m_IL + 1) 0 (before ++ instr :: after) (0 + (listingBytes platform before).length) =
      some (m_IL + 1 + (before.map RawInstr.nodes).sum) := headAt_append ..
  rw [Nat.zero_add] at found
  rw [startNode, found, Option.getD_some]

theorem startNode_end (instrs : List RawInstr) :
    startNode platform instrs (listingBytes platform instrs).length = m_IL := by
  rw [startNode]
  cases found : headAt platform (m_IL + 1) 0 instrs (listingBytes platform instrs).length with
  | none => rw [Option.getD_none, if_pos rfl]
  | some p =>
    have inside := (headAt_bounds found).2
    omega

/-- The lookup of any other position. -/
theorem startNode_elsewhere {instrs : List RawInstr} (outside : ¬Boundary platform instrs position) :
    startNode platform instrs position = nullptr := by
  rw [startNode]
  cases found : headAt platform (m_IL + 1) 0 instrs position with
  | none =>
    rw [Option.getD_none, if_neg]
    rintro rfl
    exact outside ⟨instrs, [], by simp, rfl⟩
  | some p =>
    obtain ⟨before, instr, after, rfl, place, -⟩ := headAt_eq_some found
    exact absurd ⟨before, instr :: after, rfl, by simpa using place⟩ outside

end StartNode

section Targets

variable {platform : Platform}

private theorem targetNodes_branch (brk : Ptr) {base : Nat} {targets : List Nat} :
    (∃ node ∈ targetNodes platform base brk targets, node.operand = position) ↔
      ∃ target ∈ targets, wrap32 (base + target) = position := by
  induction targets generalizing brk with
  | nil => simp [targetNodes]
  | cons target rest ih => simp [targetNodes, ih]

theorem targetNodes_opcode {base : Nat} {targets : List Nat}
    (member : node ∈ targetNodes platform base brk targets) : node.opcode = platform.CEE_SWITCH_ARG := by
  induction targets generalizing brk with
  | nil => simp [targetNodes] at member
  | cons target rest ih =>
    rcases List.mem_cons.mp member with rfl | later
    · rfl
    · exact ih later

/-- The branch nodes of an instruction hold the positions it refers to. -/
theorem rawNodes_targets (brk : Ptr) (instr : RawInstr) (position : Nat) :
    (∃ node ∈ rawNodes platform brk offset instr, node.isBranch platform ∧ node.operand = position) ↔
      position ∈ instr.targets platform offset := by
  cases instr with
  | plain opcode operand =>
    simp only [rawNodes, RawInstr.targets, List.mem_singleton, exists_eq_left, Instr.isBranch]
    split <;> simp_all [eq_comm]
  | switch targets =>
    have notBranch : ¬(Instr.isBranch platform ⟨brk, CEE_SWITCH, targets.length⟩) := Instr.not_isBranch_of_switch rfl
    have branches : ∀ node ∈ targetNodes platform (wrap32 (offset + 1 + 4 + 4 * targets.length)) (brk + 1) targets,
        node.isBranch platform := by
      intro node member
      exact .of_switchArg (targetNodes_opcode member)
    have positions : position ∈ (RawInstr.switch targets).targets platform offset ↔
        ∃ target ∈ targets, wrap32 (wrap32 (offset + 1 + 4 + 4 * targets.length) + target) = position := by
      simp [RawInstr.targets, wrap32_add_left]
    rw [positions, ← targetNodes_branch (brk + 1)]
    constructor
    · rintro ⟨node, member, branch, operand⟩
      rcases List.mem_cons.mp member with rfl | listed
      · exact absurd branch notBranch
      · exact ⟨node, listed, operand⟩
    · rintro ⟨node, listed, operand⟩
      exact ⟨node, List.mem_cons_of_mem _ listed, branches node listed, operand⟩

theorem storedOperand_lt (branch : platform.s_OpCodeFlags opcode &&& OPCODEFLAGS_BranchTarget ≠ 0)
    (offset operand : Nat) : storedOperand platform offset opcode operand < 2 ^ 32 := by
  have flags := platform.flags_cases opcode
  unfold storedOperand
  split
  · exact wrap32_lt _
  · exact wrap32_lt _
  · simp only [List.mem_cons, List.not_mem_nil, or_false] at flags
    rcases flags with flags | flags | flags | flags | flags | flags | flags | flags <;>
      simp_all [OPCODEFLAGS_BranchTarget]

theorem targets_lt (instr : RawInstr) (member : position ∈ instr.targets platform offset) : position < 2 ^ 32 := by
  cases instr with
  | plain opcode operand =>
    rw [RawInstr.targets] at member
    split at member
    · rename_i branch
      rw [List.mem_singleton.mp member]
      exact storedOperand_lt branch ..
    · simp at member
  | switch targets =>
    obtain ⟨target, -, rfl⟩ := List.mem_map.mp member
    exact wrap32_lt _

theorem exists_loadedNodes (brk : Ptr) (offset : Nat) {instrs : List RawInstr} (wanted : Instr → Prop) :
    (∃ node ∈ loadedNodes platform brk offset instrs, wanted node) ↔
      ∃ before instr after, instrs = before ++ instr :: after ∧
        ∃ node ∈ rawNodes platform (brk + (before.map RawInstr.nodes).sum)
          (offset + (listingBytes platform before).length) instr, wanted node := by
  constructor
  · rintro ⟨node, member, holds⟩
    induction instrs generalizing brk offset with
    | nil => simp [loadedNodes] at member
    | cons instr rest ih =>
      rcases List.mem_append.mp member with here | later
      · exact ⟨[], instr, rest, rfl, node, by simpa [listingBytes] using here, holds⟩
      · obtain ⟨before, found, after, rfl, node, listed, holds⟩ := ih _ _ later
        refine ⟨instr :: before, found, after, rfl, node, ?_, holds⟩
        simpa [listingBytes, RawInstr.size, Nat.add_assoc] using listed
  · rintro ⟨before, instr, after, rfl, node, member, holds⟩
    refine ⟨node, ?_, holds⟩
    rw [loadedNodes_append]
    exact List.mem_append_right _ (List.mem_append_left _ member)

/-- The targets of the nodes are the lookups of the positions the instructions refer to. -/
theorem importedNodes_targets {instrs : List RawInstr} (wanted : Ptr → Prop) :
    (∀ node ∈ importedNodes platform instrs, node.isBranch platform → wanted node.operand) ↔
      ∀ before instr after, instrs = before ++ instr :: after →
        ∀ target ∈ instr.targets platform (listingBytes platform before).length,
          wanted (startNode platform instrs target) := by
  have isBranch (node : Instr) :
      (resolved platform (startNode platform instrs) node).isBranch platform ↔ node.isBranch platform := by
    rw [Instr.isBranch, resolved_opcode, Instr.isBranch]
  constructor
  · rintro all before instr after rfl target member
    obtain ⟨node, listed, branch, operand⟩ := (rawNodes_targets (m_IL + 1 + (before.map RawInstr.nodes).sum)
      instr target).mpr member
    obtain ⟨node, listed, branch, operand⟩ := (exists_loadedNodes (m_IL + 1) 0
      fun node => node.isBranch platform ∧ node.operand = target).mpr
      ⟨before, instr, after, rfl, node, by simpa using listed, branch, operand⟩
    have holds := all _ (List.mem_map_of_mem listed) ((isBranch node).mpr branch)
    rwa [resolved, if_pos branch, operand, Nat.mod_eq_of_lt (targets_lt instr member)] at holds
  · intro all node member branch
    obtain ⟨node, listed, rfl⟩ := List.mem_map.mp member
    have branch := (isBranch node).mp branch
    obtain ⟨before, instr, after, same, other, inside, rfl⟩ :=
      (exists_loadedNodes _ _ fun other => other = node).mp ⟨node, listed, rfl⟩
    rw [Nat.zero_add] at inside
    have target := (rawNodes_targets _ instr other.operand).mp ⟨other, inside, branch, rfl⟩
    rw [resolved, if_pos branch, Nat.mod_eq_of_lt (targets_lt instr target)]
    exact all before instr after same _ target

end Targets

end ClrProfiling
