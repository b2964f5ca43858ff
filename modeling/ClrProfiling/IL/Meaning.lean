import ClrProfiling.IL.Execution

/-! What `InjectEnterExitHooks` does to the meaning of a body: the exported code runs as the code
did, with the event of the enter hook in front and the event of the exit hook where a RET ends it. -/

namespace ClrProfiling

open LinkedRing Word ILRewriter Machine

section Probes

/-- What a probe executes. -/
def probeInstructions (hookMethod : UInt32) : (hookArg : Option UInt64) → List Instruction
  | none => [⟨CEE_CALL, hookMethod.toNat⟩]
  | some argument => [⟨CEE_LDC_I4, argument.toNat % 2 ^ 32⟩, ⟨CEE_CALL, hookMethod.toNat⟩]

def enterInstructions (hooks : Hooks) : List Instruction :=
  if hooks.onEnterHook ≠ mdTokenNil then probeInstructions hooks.onEnterHook hooks.hookArg else []

/-- What is executed in front of a RET: the NOP in its place, and the probe. -/
def exitInstructions (hooks : Hooks) : List Instruction :=
  if hooks.onExitHook ≠ mdTokenNil then ⟨CEE_NOP, 0⟩ :: probeInstructions hooks.onExitHook hooks.hookArg else []

/-- What ends a method. -/
def returns (instruction : Instruction) : Bool := instruction = ⟨CEE_RET, 0⟩

variable {platform : Platform}

private theorem instruction_of_hook {node : Instr} (hook : node.opcode ∈ hookOpcodes) :
    node.instruction platform = ⟨node.opcode, node.operand % 256 ^ valueWidth platform node.opcode⟩ :=
  if_neg (plain_of_hook hook)

private theorem instruction_call (brk : Ptr) (hookMethod : UInt32) :
    (⟨brk, CEE_CALL, hookMethod.toNat⟩ : Instr).instruction platform = ⟨CEE_CALL, hookMethod.toNat⟩ := by
  rw [instruction_of_hook (by simp [hookOpcodes]), valueWidth, operandWidth, platform.flags_CEE_CALL]
  exact congrArg _ (Nat.mod_eq_of_lt hookMethod.toNat_lt)

private theorem instruction_ldc (brk : Ptr) (argument : UInt64) :
    (⟨brk, CEE_LDC_I4, argument.toNat⟩ : Instr).instruction platform = ⟨CEE_LDC_I4, argument.toNat % 2 ^ 32⟩ := by
  rw [instruction_of_hook (by simp [hookOpcodes]), valueWidth, operandWidth, platform.flags_CEE_LDC_I4]
  rfl

theorem probeNodes_instructions (platform : Platform) (brk : Ptr) (hookMethod : UInt32) (hookArg : Option UInt64) :
    (probeNodes brk hookMethod hookArg).map (Instr.instruction platform) = probeInstructions hookMethod hookArg := by
  cases hookArg with
  | none => simp only [probeNodes, List.map_cons, instruction_call, List.map_nil, probeInstructions]
  | some argument =>
    simp only [probeNodes, List.map_cons, instruction_call, instruction_ldc, List.map_nil, probeInstructions]

theorem instruction_nop (brk operand : Nat) :
    (⟨brk, CEE_NOP, operand⟩ : Instr).instruction platform = ⟨CEE_NOP, 0⟩ := by
  rw [instruction_of_hook (by simp [hookOpcodes]), valueWidth, operandWidth, platform.flags_CEE_NOP]
  exact congrArg _ (Nat.mod_one _)

theorem instruction_ret {node : Instr} (ret : node.opcode = CEE_RET) :
    node.instruction platform = ⟨CEE_RET, 0⟩ := by
  rw [instruction_of_hook (by simp [hookOpcodes, ret]), ret, valueWidth, operandWidth, platform.flags_CEE_RET]
  exact congrArg _ (Nat.mod_one _)

private theorem longForm_ne_ret (branch : platform.s_OpCodeFlags opcode &&& OPCODEFLAGS_BranchTarget ≠ 0) :
    longForm platform opcode ≠ CEE_RET := by
  unfold longForm
  split
  · rename_i short
    have range := short_range short
    unfold widened
    simp only [CEE_BR_S, CEE_BLT_UN_S, CEE_LEAVE_S, CEE_BR, CEE_LEAVE, CEE_RET] at range ⊢
    split <;> omega
  · rintro rfl
    exact branch (by rw [platform.flags_CEE_RET]; decide)

/-- Only a RET returns. -/
theorem returns_iff {node : Instr} : returns (node.instruction platform) = true ↔ node.opcode = CEE_RET := by
  constructor
  · intro ends
    have same : node.instruction platform = ⟨CEE_RET, 0⟩ := of_decide_eq_true ends
    by_cases branch : node.isBranch platform
    · rw [Instr.instruction, if_pos branch, Instruction.mk.injEq] at same
      exact absurd same.1 (longForm_ne_ret branch)
    · rw [Instr.instruction, if_neg branch, Instruction.mk.injEq] at same
      exact same.1
  · intro ret
    rw [instruction_ret ret]
    rfl

end Probes

section Cuts

variable {platform : Platform} {hooks : Hooks} {onExitHook : UInt32} {hookArg : Option UInt64}

/-- The entries of a list with its exit probes, if there are any. -/
def exitsFrom (hooks : Hooks) (brk : Ptr) (nodes : List Instr) : List Probed :=
  if hooks.onExitHook ≠ mdTokenNil then exitProbed hooks.onExitHook hooks.hookArg brk nodes
  else nodes.map (⟨·, .original⟩)

private theorem exitProbed_append (brk : Ptr) (front back : List Instr) :
    ∃ brk', exitProbed onExitHook hookArg brk (front ++ back) =
      exitProbed onExitHook hookArg brk front ++ exitProbed onExitHook hookArg brk' back := by
  induction front generalizing brk with
  | nil => exact ⟨brk, rfl⟩
  | cons node rest ih =>
    rw [List.cons_append, exitProbed, exitProbed]
    split
    · obtain ⟨brk', whole⟩ := ih (brk + 1 + (probeNodes (brk + 1) onExitHook hookArg).length)
      exact ⟨brk', by simp [whole]⟩
    · obtain ⟨brk', whole⟩ := ih brk
      exact ⟨brk', by rw [whole, List.cons_append]⟩

theorem exitsFrom_append (hooks : Hooks) (brk : Ptr) (front back : List Instr) :
    ∃ brk', exitsFrom hooks brk (front ++ back) = exitsFrom hooks brk front ++ exitsFrom hooks brk' back := by
  unfold exitsFrom
  split
  · exact exitProbed_append ..
  · exact ⟨brk, List.map_append ..⟩

theorem exitsFrom_expanded (hooks : Hooks) (brk : Ptr) (nodes : List Instr) :
    Expanded hooks.onExitHook hooks.hookArg nodes (exitsFrom hooks brk nodes) := by
  unfold exitsFrom
  split
  · exact expanded_exitProbed _ nodes
  · exact expanded_original nodes

theorem exitsFrom_plain (hooks : Hooks) (brk : Ptr) {nodes : List Instr} (plain : ∀ node ∈ nodes, node.opcode ≠ CEE_RET)
    (rest : List Instr) :
    ∃ brk', exitsFrom hooks brk (nodes ++ rest) = nodes.map (⟨·, .original⟩) ++ exitsFrom hooks brk' rest := by
  unfold exitsFrom
  split
  · exact ⟨brk, exitProbed_plain _ _ brk plain rest⟩
  · exact ⟨brk, List.map_append ..⟩

/-- A RET has the exit probe in front of it, if there is one. -/
theorem exitsFrom_ret (platform : Platform) (hooks : Hooks) (brk : Ptr) {node : Instr} (ret : node.opcode = CEE_RET)
    (rest : List Instr) :
    ∃ (chain : List Probed) (last : Probed) (brk' : Ptr),
      exitsFrom hooks brk (node :: rest) = chain ++ last :: exitsFrom hooks brk' rest ∧
      last.node.opcode = CEE_RET ∧ (last = ⟨node, .original⟩ ∨ last.role = .returns node) ∧
      (∀ entry ∈ chain, entry.node.opcode ∈ hookOpcodes) ∧
      (chain.map Probed.node).map (Instr.instruction platform) = exitInstructions hooks := by
  unfold exitsFrom exitInstructions
  split
  · rw [exitProbed, if_pos ret]
    refine ⟨⟨{ node with opcode := CEE_NOP }, .replaced node⟩ ::
        (probeNodes (brk + 1) hooks.onExitHook hooks.hookArg).map (⟨·, .exitProbe node⟩),
      ⟨⟨brk, CEE_RET, 0⟩, .returns node⟩, _, rfl, rfl, .inr rfl, ?_, ?_⟩
    · rw [List.forall_mem_cons, List.forall_mem_map]
      refine ⟨by simp [hookOpcodes], fun probe listed => ?_⟩
      rcases probeNodes_opcode listed with opcode | opcode <;> simp [hookOpcodes, opcode]
    · rw [List.map_cons, List.map_cons, instruction_nop, List.map_map,
        ← probeNodes_instructions platform (brk + 1), List.map_map]
      rfl
  · exact ⟨[], ⟨node, .original⟩, brk, rfl, ret, .inl rfl, by simp, rfl⟩

theorem injectedNodes_eq (platform : Platform) (hooks : Hooks) (instrs : List RawInstr) :
    ∃ brk brk', injectedNodes platform hooks instrs =
      (enterNodes hooks brk).map (⟨·, .enterProbe⟩) ++ exitsFrom hooks brk' (importedNodes platform instrs) :=
  ⟨_, _, rfl⟩

theorem injectedNodes_cut (platform : Platform) (hooks : Hooks) (before after : List RawInstr) :
    ∃ front brk, injectedNodes platform hooks (before ++ after) =
      front ++ exitsFrom hooks brk (nodesBehind platform before after) := by
  obtain ⟨brk, brk', whole⟩ := injectedNodes_eq platform hooks (before ++ after)
  obtain ⟨front, nodes⟩ := importedNodes_cut platform before after
  obtain ⟨brk'', cut⟩ := exitsFrom_append hooks brk' front (nodesBehind platform before after)
  exact ⟨_, brk'', by rw [whole, nodes, cut, ← List.append_assoc]⟩

theorem startNode_exits (hooks : Hooks) (brk : Ptr) (before after : List RawInstr) :
    rightOf m_IL (((exitsFrom hooks brk (nodesBehind platform before after)).map Probed.node).map Instr.ptr) =
      startNode platform (before ++ after) (listingBytes platform before).length := by
  rw [startNode_cut]
  exact (exitsFrom_expanded ..).head_ptr m_IL

end Cuts

section Meaning

variable {platform : Platform} {body : MethodBody} {hooks : Hooks} {instrs : List RawInstr} {result : Exported}

/-- Where a position of the code has gone to. -/
def movedTo (platform : Platform) (instrs : List RawInstr) (result : Exported) (position : Nat) : Nat :=
  result.rewriter.m_offset (startNode platform instrs position)

/-- A boundary and the position it has gone to. -/
def Moved (platform : Platform) (instrs : List RawInstr) (result : Exported) (position position' : Nat) : Prop :=
  Boundary platform instrs position ∧ position' = movedTo platform instrs result position

/-- Exported regions reach from where they began to where they ended. -/
def RangesMoved (platform : Platform) (instrs : List RawInstr) (result : Exported) (ehInfo exported : EHInfo) : Prop :=
  ∀ region, (region = .filter → ehInfo.isFilter) → exported.range region =
    (movedTo platform instrs result (ehInfo.range region).1, movedTo platform instrs result (ehInfo.range region).2)

/-- An exported clause with the regions of the clause it was exported for. -/
structure ClauseMoved (platform : Platform) (hooks : Hooks) (instrs : List RawInstr) (result : Exported)
    (ehInfo exported : EHInfo) : Prop where
  kept : RegionsKept platform hooks instrs result.rewriter.m_offset ehInfo exported
  ranges : RangesMoved platform instrs result ehInfo exported

/-- A run of `InjectEnterExitHooks`, with the list it has exported. -/
structure Injection (platform : Platform) (body : MethodBody) (hooks : Hooks) (instrs : List RawInstr) (s : ILRewriter)
    (nodes' : List Instr) (result : Exported) : Prop where
  valid : ∀ instr ∈ instrs, instr.Valid platform
  code : body.Code = listingBytes platform instrs
  injected : Injected platform body hooks instrs s
  closed : Closed platform ((injectedNodes platform hooks instrs).map Probed.node)
  assembled : Assembled platform ((injectedNodes platform hooks instrs).map Probed.node) nodes' s result
  clauses : List.Forall₂ (ClauseMoved platform hooks instrs result) body.EH result.body.EH

theorem injection_of_ok (valid : ∀ instr ∈ instrs, instr.Valid platform)
    (code : body.Code = listingBytes platform instrs)
    (wellFormed : WellFormedRegions platform body instrs)
    (run : InjectEnterExitHooks platform body hooks = .ok result) :
    ∃ s nodes', Injection platform body hooks instrs s nodes' result := by
  obtain ⟨s, injected, exported⟩ := InjectEnterExitHooks_eq_ok valid code run
  have closed := injected.closed exported
  obtain ⟨nodes', assembled⟩ := Export_eq_ok injected.holds closed exported
  obtain ⟨grows, narrow⟩ := exported_grows valid assembled
  have ring := assembled.laid.holds.ring
  rw [widened_ptrs assembled.widening] at ring
  have onward (before : List Ptr) (node : Ptr) (after : List Ptr)
      (split : ((injectedNodes platform hooks instrs).map Probed.node).map Instr.ptr = before ++ node :: after) :
      result.rewriter.m_pNext node = rightOf m_IL after := (split ▸ ring).next_eq
  have part := injected_sublist platform hooks instrs
  refine ⟨s, nodes', valid, code, injected, closed, assembled, ?_⟩
  rw [assembled.clauses, injected.clauses, List.map_map]
  refine forall₂_map_of_forall fun ehInfo member => ⟨?_, ?_⟩
  · exact clause_kept wellFormed member valid code grows narrow onward
  · refine exported_range wellFormed member code (fun place boundary => narrow _ (part.subset (startNode_mem boundary)))
      (fun first last begins ends order => ?_) (next_handlerEnd wellFormed member valid onward)
    rw [(grows.sublist part).le_iff (imported_grows valid) (startNode_mem begins) (startNode_mem ends),
      startOf_startNode valid begins, startOf_startNode valid ends]
    exact order

variable {s : ILRewriter} {nodes' : List Instr}

theorem Injection.moved_lt (run : Injection platform body hooks instrs s nodes' result)
    (boundary : Boundary platform instrs position) :
    movedTo platform instrs result position < 2 ^ 32 := by
  have listed : startNode platform instrs position ∈
      m_IL :: ((injectedNodes platform hooks instrs).map Probed.node).map Instr.ptr :=
    injected_ptrs (List.mem_cons.mpr (startNode_refers_iff.mpr boundary))
  rw [← widened_ptrs run.assembled.widening] at listed
  rw [movedTo, run.assembled.laid.starts _ listed]
  exact run.assembled.room _

/-- A node that is referred to is no null pointer, so a position was looked up at a boundary. -/
theorem Injection.boundary (run : Injection platform body hooks instrs s nodes' result)
    (listed : startNode platform instrs position ∈
      m_IL :: ((injectedNodes platform hooks instrs).map Probed.node).map Instr.ptr) :
    Boundary platform instrs position := by
  by_contra elsewhere
  rw [startNode_elsewhere elsewhere] at listed
  rcases List.mem_cons.mp listed with hub | inside
  · exact absurd hub (by decide)
  · obtain ⟨node, member, null⟩ := List.mem_map.mp inside
    have allocated := (run.injected.holds.allocated node member).1
    rw [null] at allocated
    exact absurd allocated (Nat.not_lt_zero _)

theorem isFilter_of_flags {ehInfo exported : EHInfo} (flags : exported.Flags = ehInfo.Flags) :
    exported.isFilter ↔ ehInfo.isFilter := by
  rw [EHInfo.isFilter, EHInfo.isFilter, flags]

private theorem protections_kept {EH EH' : List EHInfo} {position position' : Nat}
    (clauses : List.Forall₂ (ClauseMoved platform hooks instrs result) EH EH')
    (covers : ∀ ehInfo ∈ EH, ∀ exported, RegionsKept platform hooks instrs result.rewriter.m_offset ehInfo exported →
      ∀ region, exported.covers region position' ↔ ehInfo.covers region position) :
    protections EH' position' = protections EH position := by
  induction clauses with
  | nil => rfl
  | @cons ehInfo exported _ _ moved rest ih =>
    obtain ⟨here, others⟩ := List.forall_mem_cons.mp covers
    have first := moved.kept
    refine List.cons_eq_cons.mpr ⟨?_, ih others⟩
    simp only [Protection.mk.injEq]
    refine ⟨first.flags, ?_, funext fun region => ?_⟩
    · by_cases isFilter : ehInfo.isFilter
      · rw [if_pos ((isFilter_of_flags first.flags).mpr isFilter), if_pos isFilter]
      · rw [if_neg (mt (isFilter_of_flags first.flags).mp isFilter), if_neg isFilter, first.classToken isFilter]
    · exact decide_eq_decide.mpr (here exported first region)

private theorem entries_exported {offset : Ptr → Nat} {ehInfo : EHInfo} (next : Ptr → Ptr)
    (small : ∀ position ∈ ehInfo.entries, offset (startNode platform instrs position) < 2 ^ 32) :
    (exportedClause offset next (importedClause platform instrs ehInfo)).entries =
      ehInfo.entries.map fun position => offset (startNode platform instrs position) := by
  obtain ⟨handler, filter⟩ := List.forall_mem_cons.mp small
  have toNat_ofNat {position : Nat} (narrow : position < 2 ^ 32) : (UInt32.ofNat position).toNat = position := by
    rw [UInt32.toNat_ofNat', Nat.mod_eq_of_lt narrow]
  rw [EHInfo.entries, EHInfo.entries, List.map_cons]
  refine List.cons_eq_cons.mpr ⟨toNat_ofNat handler, ?_⟩
  by_cases isFilter : ehInfo.isFilter
  · have flag : ¬ehInfo.Flags &&& COR_ILEXCEPTION_CLAUSE_FILTER = 0 := isFilter
    rw [if_pos isFilter, List.forall_mem_singleton] at filter
    rw [if_pos (by exact isFilter), if_pos isFilter, List.map_singleton]
    simp only [exportedClause, importedClause, if_neg flag, if_pos isFilter, toNat_ofNat filter]
  · rw [if_neg (by exact isFilter), if_neg isFilter, List.map_nil]

/-- Clauses are entered where they were. -/
theorem Injection.handlers (run : Injection platform body hooks instrs s nodes' result)
    (wellFormed : WellFormedRegions platform body instrs) :
    List.Forall₂ (Moved platform instrs result) (body.EH.flatMap EHInfo.entries)
      (result.body.EH.flatMap EHInfo.entries) := by
  have boundaries : ∀ position ∈ body.EH.flatMap EHInfo.entries, Boundary platform instrs position := by
    intro position member
    obtain ⟨ehInfo, listed, entry⟩ := List.mem_flatMap.mp member
    rcases List.mem_cons.mp entry with rfl | filter
    · exact wellFormed.begins ehInfo listed .handler
    · split at filter
      · rename_i isFilter
        have first := wellFormed.begins ehInfo listed .filter
        rw [EHInfo.range, if_pos isFilter] at first
        rwa [List.mem_singleton.mp filter]
      · cases filter
  have moved : result.body.EH.flatMap EHInfo.entries =
      (body.EH.flatMap EHInfo.entries).map (movedTo platform instrs result) := by
    rw [run.assembled.clauses, run.injected.clauses, List.map_map, List.flatMap_map, List.map_flatMap]
    apply List.flatMap_congr
    intro ehInfo listed
    exact entries_exported _ fun position entry =>
      run.moved_lt (boundaries position (List.mem_flatMap.mpr ⟨ehInfo, listed, entry⟩))
  rw [moved, List.forall₂_map_right_iff]
  exact List.forall₂_same.mpr fun position member => ⟨boundaries position member, rfl⟩

private theorem instr_of_fetch (valid : ∀ instr ∈ instrs, instr.Valid platform)
    (code : body.Code = listingBytes platform instrs) (boundary : Boundary platform instrs position)
    (fetched : commandAt platform body.Code body.EH position = some command) :
    ∃ before instr after, instrs = before ++ instr :: after ∧ position = (listingBytes platform before).length ∧
      command = { op := instr.instruction platform, place := protections body.EH position,
                  next := position + instr.size platform, targets := instr.targets platform position } := by
  obtain ⟨before, after, rfl, rfl⟩ := boundary
  cases after with
  | nil =>
    obtain ⟨failure, refused⟩ := instrAt_end platform body.Code
    rw [List.append_nil] at code
    rw [commandAt, ← code, refused] at fetched
    cases fetched
  | cons instr after =>
    rw [commandAt, instrAt_listing (valid instr (by simp)) code, Option.some_inj] at fetched
    exact ⟨before, instr, after, rfl, rfl, fetched.symm⟩

/-- The instruction behind a cut, and the nodes it has in the list. -/
theorem nodesBehind_block (before after : List RawInstr) {instr : RawInstr} (valid : instr.Valid platform) :
    ∃ block : Block, block.WellFormed platform ∧
      nodesBehind platform before (instr :: after) = block.nodes ++ nodesBehind platform (before ++ [instr]) after ∧
      block.head.instruction platform = instr.instruction platform ∧
      branchTargets platform block.nodes = (instr.targets platform (listingBytes platform before).length).map
        (startNode platform (before ++ instr :: after)) ∧
      block.head.ptr = startNode platform (before ++ instr :: after) (listingBytes platform before).length := by
  obtain ⟨block, formed, nodes, instruction⟩ := rawNodes_block valid (startNode platform (before ++ instr :: after))
    (m_IL + 1 + (before.map RawInstr.nodes).sum) (listingBytes platform before).length
  have cut := nodesBehind_cons platform before instr after
  rw [nodes] at cut
  refine ⟨block, formed, cut, instruction, ?_, ?_⟩
  · rw [← nodes, branchTargets_resolved, branchTargets_rawNodes]
    exact List.map_congr_left fun target member => congrArg _ (Nat.mod_eq_of_lt (targets_lt instr member))
  · obtain ⟨arguments, head, -⟩ := block.tail_switchArg formed
    rw [startNode_cut, cut, head]
    rfl

private theorem not_ret_of_stays {block : Block} (formed : block.WellFormed platform)
    (stays : returns (block.head.instruction platform) = false) : ∀ node ∈ block.nodes, node.opcode ≠ CEE_RET := by
  have head : block.head.opcode ≠ CEE_RET := fun ret => by rw [returns_iff.mpr ret] at stays; cases stays
  obtain ⟨arguments, nodes, internal⟩ := block.tail_switchArg formed
  rw [nodes, List.forall_mem_cons]
  have importable : platform.Importable CEE_RET := platform.importable_oneByte (by decide)
  exact ⟨head, fun argument member ret => importable.ne_switchArg (ret.symm.trans (internal argument member))⟩

private theorem ret_of_returns {instr : RawInstr} (ends : returns (instr.instruction platform) = true) :
    ∃ operand, instr = .plain CEE_RET operand := by
  have same : instr.instruction platform = ⟨CEE_RET, 0⟩ := of_decide_eq_true ends
  cases instr with
  | plain opcode operand =>
    rw [RawInstr.instruction] at same
    split at same
    · rename_i branch
      rw [Instruction.mk.injEq] at same
      exact absurd same.1 (longForm_ne_ret branch)
    · rw [Instruction.mk.injEq] at same
      exact ⟨operand, by rw [same.1]⟩
  | switch targets =>
    have opcode : CEE_SWITCH = CEE_RET := congrArg Instruction.opcode same
    exact absurd opcode (by decide)

private theorem listing_behind (before : List RawInstr) (instr : RawInstr) :
    (listingBytes platform (before ++ [instr])).length =
      (listingBytes platform before).length + instr.size platform := by
  simp [listingBytes, RawInstr.size]

theorem movedTo_exits (platform : Platform) (result : Exported) (hooks : Hooks) (brk : Ptr)
    {before after : List RawInstr} (split : instrs = before ++ after) :
    result.rewriter.m_offset (rightOf m_IL
        (((exitsFrom hooks brk (nodesBehind platform before after)).map Probed.node).map Instr.ptr)) =
      movedTo platform instrs result (listingBytes platform before).length := by
  rw [startNode_exits, ← split, movedTo]

/-- An instruction that does not return is exported as one that does the same. -/
theorem Injection.plain (run : Injection platform body hooks instrs s nodes' result)
    (moved : Moved platform instrs result position position')
    (fetched : commandAt platform body.Code body.EH position = some command)
    (stays : returns command.op = false) :
    ∃ command', commandAt platform result.body.Code result.body.EH position' = some command' ∧
      command'.op = command.op ∧ command'.place = command.place ∧
        Moved platform instrs result command.next command'.next ∧
      List.Forall₂ (Moved platform instrs result) command.targets command'.targets := by
  obtain ⟨boundary, rfl⟩ := moved
  obtain ⟨before, instr, after, split, rfl, rfl⟩ := instr_of_fetch run.valid run.code boundary fetched
  obtain ⟨block, formed, cut, instruction, targets, head⟩ := nodesBehind_block before after
    (run.valid instr (by simp [split]))
  obtain ⟨front, brk, whole⟩ := injectedNodes_cut platform hooks before (instr :: after)
  obtain ⟨brk', kept⟩ := exitsFrom_plain hooks brk (not_ret_of_stays formed (by rwa [instruction]))
    (nodesBehind platform (before ++ [instr]) after)
  have nodes : (injectedNodes platform hooks instrs).map Probed.node = front.map Probed.node ++ (block.nodes ++
      (exitsFrom hooks brk' (nodesBehind platform (before ++ [instr]) after)).map Probed.node) := by
    rw [split, whole, cut, kept, List.map_append, List.map_append, List.map_map]
    simp [Function.comp_def]
  have assembled := run.assembled
  have blocked := run.injected.blocked
  have closed := run.closed
  rw [nodes] at assembled blocked closed
  rw [← split] at head targets
  have command := assembled.commandAt result.body.EH blocked formed closed
  rw [head] at command
  refine ⟨_, command, instruction, ?_, ⟨⟨before ++ [instr], after, by simp [split], (listing_behind ..).symm⟩, ?_⟩, ?_⟩
  · exact protections_kept run.clauses fun ehInfo member exported kept region =>
      kept.instructions region before instr after split
  · rw [← listing_behind]
    exact movedTo_exits platform result hooks brk' (by simp [split])
  · rw [targets, List.forall₂_map_right_iff, List.forall₂_map_right_iff]
    refine List.forall₂_same.mpr fun target member => ⟨run.boundary ?_, rfl⟩
    have listed : startNode platform instrs target ∈ branchTargets platform block.nodes :=
      targets ▸ List.mem_map_of_mem member
    obtain ⟨node, inBlock, same⟩ := List.mem_map.mp listed
    obtain ⟨inside, branch⟩ := List.mem_filter.mp inBlock
    rw [← same, nodes]
    exact closed node (by simp [inside]) (by simpa using branch)

/-- A RET is exported behind the exit probe. -/
theorem Injection.closes (run : Injection platform body hooks instrs s nodes' result)
    (wellFormed : WellFormedRegions platform body instrs)
    (moved : Moved platform instrs result position position')
    (fetched : commandAt platform body.Code body.EH position = some command) (ends : returns command.op = true) :
    ∃ last command', (bodyProgram platform result.body.Code result.body.EH).Corridor position'
      (exitInstructions hooks) last ∧
      commandAt platform result.body.Code result.body.EH last = some command' ∧
      command'.op = command.op ∧ command'.place = command.place := by
  obtain ⟨boundary, rfl⟩ := moved
  obtain ⟨before, instr, after, split, rfl, rfl⟩ := instr_of_fetch run.valid run.code boundary fetched
  obtain ⟨operand, rfl⟩ := ret_of_returns ends
  obtain ⟨block, formed, cut, instruction, targets, head⟩ := nodesBehind_block before after
    (run.valid (.plain CEE_RET operand) (by simp [split]))
  obtain ⟨front, brk, whole⟩ := injectedNodes_cut platform hooks before (.plain CEE_RET operand :: after)
  have ret : block.head.opcode = CEE_RET := returns_iff.mp (instruction ▸ ends)
  cases block with
  | switch node arguments => exact absurd (formed.1.symm.trans ret) (by decide)
  | plain node =>
    obtain ⟨chain, last, brk', kept, opcode, role, hooked, instructions⟩ := exitsFrom_ret platform hooks brk ret
      (nodesBehind platform (before ++ [.plain CEE_RET operand]) after)
    have cutExits : exitsFrom hooks brk (nodesBehind platform before (.plain CEE_RET operand :: after)) =
        chain ++ last :: exitsFrom hooks brk' (nodesBehind platform (before ++ [.plain CEE_RET operand]) after) := by
      rw [cut, ← kept]
      rfl
    have listed : last ∈ injectedNodes platform hooks instrs := by
      rw [split, whole, cutExits]
      simp
    have start := movedTo_exits platform result hooks brk split
    have nodes : (injectedNodes platform hooks instrs).map Probed.node = front.map Probed.node ++
        (chain.map Probed.node ++ ((Block.plain last.node).nodes ++
          (exitsFrom hooks brk' (nodesBehind platform
            (before ++ [.plain CEE_RET operand]) after)).map Probed.node)) := by
      rw [split, whole, cutExits]
      simp [Block.nodes]
    rw [cutExits, List.map_append, List.map_cons] at start
    have assembled := run.assembled
    have blocked := run.injected.blocked
    have closed := run.closed
    rw [nodes] at assembled blocked closed
    have corridor := assembled.corridor result.body.EH rfl blocked closed (by simpa using hooked)
    rw [instructions] at corridor
    rw [← List.append_assoc] at assembled blocked closed
    have command := assembled.commandAt result.body.EH blocked (hook_formed (by simp [hookOpcodes, opcode])) closed
    refine ⟨_, _, start ▸ corridor, command,
      (instruction_ret opcode).trans ((instruction_ret ret).symm.trans instruction), ?_⟩
    apply protections_kept run.clauses
    intro ehInfo member exported keeps region
    rcases role with original | added
    · have same : last.node.ptr = startNode platform instrs (listingBytes platform before).length := by
        rw [original, split]
        exact head
      rw [Block.head, same]
      exact keeps.instructions region before _ after split
    · have outside := keeps.added region last listed (by simp [added])
      have free := wellFormed.noRet before operand after split ehInfo member region
      exact iff_of_false outside free

private theorem enterNodes_instructions (hooks : Hooks) (brk : Ptr) :
    (enterNodes hooks brk).map (Instr.instruction platform) = enterInstructions hooks := by
  unfold enterNodes enterInstructions
  split
  · exact probeNodes_instructions ..
  · rfl

private theorem Injection.opens (run : Injection platform body hooks instrs s nodes' result) :
    (bodyProgram platform result.body.Code result.body.EH).Corridor 0 (enterInstructions hooks)
      (movedTo platform instrs result 0) := by
  obtain ⟨brk, brk', whole⟩ := injectedNodes_eq platform hooks instrs
  have nodes : (injectedNodes platform hooks instrs).map Probed.node =
      [] ++ (enterNodes hooks brk ++ (exitsFrom hooks brk' (importedNodes platform instrs)).map Probed.node) := by
    rw [whole]
    simp [Function.comp_def]
  have corridor := run.assembled.corridor result.body.EH nodes run.injected.blocked run.closed fun node member => by
    rcases enterNodes_opcode member with opcode | opcode <;> simp [hookOpcodes, opcode]
  have assembled := run.assembled
  rw [nodes] at assembled
  obtain ⟨front', back', -, none, -, first⟩ := assembled.cut
  cases none
  rw [enterNodes_instructions, first] at corridor
  have last := movedTo_exits platform result hooks brk' (List.nil_append instrs).symm
  exact last ▸ corridor

/-- The exported body is the body with the probes around it. -/
theorem Injection.instruments (run : Injection platform body hooks instrs s nodes' result)
    (wellFormed : WellFormedRegions platform body instrs) :
    Instruments (bodyProgram platform body.Code body.EH) (bodyProgram platform result.body.Code result.body.EH) returns
      (enterInstructions hooks) (exitInstructions hooks) (Moved platform instrs result) where
  entry := ⟨_, ⟨⟨[], instrs, rfl, rfl⟩, rfl⟩, run.opens⟩
  handlers := run.handlers wellFormed
  absent := by
    rintro position position' ⟨boundary, rfl⟩ absent
    obtain ⟨before, after, rfl, rfl⟩ := boundary
    cases after with
    | nil =>
      rw [movedTo, List.append_nil, startNode_end, run.assembled.codeEnd]
      obtain ⟨failure, refused⟩ := instrAt_end platform result.body.Code
      simp only [bodyProgram, commandAt, refused]
    | cons instr after =>
      simp only [bodyProgram, commandAt, instrAt_listing (run.valid instr (by simp)) run.code] at absent
      cases absent
  plain := run.plain
  closes := run.closes wellFormed

/-- A call of a hook takes what its probe has pushed, shows an event and leaves all else as it is. -/
def Shows {State Event : Type} (semantics : Semantics Instruction (List Protection) State Event)
    (push : Nat → State → State) (hookMethod : UInt32) (hookArg : Option UInt64) (event : Event) : Prop :=
  ∀ place state, semantics ⟨CEE_CALL, hookMethod.toNat⟩ place
    (match hookArg with
      | none => state
      | some argument => push (argument.toNat % 2 ^ 32) state) = .goesOn state [event] .keep .next

/-- What the probes rely on: `nop` does nothing, `ldc.i4` pushes its operand, `ret` ends the method,
and the hooks show their events. -/
structure Hooked {State Event : Type} (semantics : Semantics Instruction (List Protection) State Event) (hooks : Hooks)
    (push : Nat → State → State) (entered left : Event) : Prop where
  nop : ∀ place state, semantics ⟨CEE_NOP, 0⟩ place state = .goesOn state [] .keep .next
  ldc_i4 : ∀ value < 2 ^ 32, ∀ place state, semantics ⟨CEE_LDC_I4, value⟩ place state =
    .goesOn (push value state) [] .keep .next
  ret : ∀ place state, ∃ behind, semantics ⟨CEE_RET, 0⟩ place state = .ends behind []
  enter : hooks.onEnterHook ≠ mdTokenNil → Shows semantics push hooks.onEnterHook hooks.hookArg entered
  exit : hooks.onExitHook ≠ mdTokenNil → Shows semantics push hooks.onExitHook hooks.hookArg left

/-- The event of a hook, if there is one. -/
def eventOf {Event : Type} (hookMethod : UInt32) (event : Event) : List Event :=
  if hookMethod ≠ mdTokenNil then [event] else []

section Semantics

variable {State Event : Type} {semantics : Semantics Instruction (List Protection) State Event}
  {push : Nat → State → State} {entered left : Event}

private theorem transparent_probe {hookMethod : UInt32} {hookArg : Option UInt64} {event : Event}
    (ldc_i4 : ∀ value < 2 ^ 32, ∀ place state, semantics ⟨CEE_LDC_I4, value⟩ place state = .goesOn (push value state)
    [] .keep .next)
    (shows : Shows semantics push hookMethod hookArg event) :
    Transparent semantics (probeInstructions hookMethod hookArg) [event] := by
  intro state
  cases hookArg with
  | none => exact .cons (fun place => shows place state) .nil
  | some argument =>
    have narrow : argument.toNat % 2 ^ 32 < 2 ^ 32 := Nat.mod_lt _ (by decide)
    exact .cons (fun place => ldc_i4 _ narrow place state) (.cons (fun place => shows place state) .nil)

theorem Hooked.enters (hooked : Hooked semantics hooks push entered left) :
    Transparent semantics (enterInstructions hooks) (eventOf hooks.onEnterHook entered) := by
  unfold enterInstructions eventOf
  split
  · rename_i hook
    exact transparent_probe hooked.ldc_i4 (hooked.enter hook)
  · exact fun state => .nil

theorem Hooked.leaves (hooked : Hooked semantics hooks push entered left) :
    Transparent semantics (exitInstructions hooks) (eventOf hooks.onExitHook left) := by
  unfold exitInstructions eventOf
  split
  · rename_i hook
    intro state
    exact .cons (fun place => hooked.nop place state) (transparent_probe hooked.ldc_i4 (hooked.exit hook) state)
  · exact fun state => .nil

theorem Hooked.closes (hooked : Hooked semantics hooks push entered left) : Closes semantics returns := by
  intro instruction place state ends
  obtain rfl : instruction = ⟨CEE_RET, 0⟩ := of_decide_eq_true ends
  exact hooked.ret place state

theorem Injection.brackets {s : ILRewriter} {nodes' : List Instr}
    (run : Injection platform body hooks instrs s nodes' result)
    (wellFormed : WellFormedRegions platform body instrs) (hooked : Hooked semantics hooks push entered left) :
    Brackets semantics (bodyProgram platform body.Code body.EH) (bodyProgram platform result.body.Code result.body.EH)
      returns (eventOf hooks.onEnterHook entered) (eventOf hooks.onExitHook left) :=
  (run.instruments wellFormed).brackets hooked.closes hooked.enters hooked.leaves

/-- The exported code does what the code did. Whatever the runtime makes of the instructions, a run of
the one is a run of the other with the event of the enter hook in front, and with the event of the exit
hook behind it exactly where a RET ends the run. -/
theorem InjectEnterExitHooks_preserves_meaning (valid : ∀ instr ∈ instrs, instr.Valid platform)
    (code : body.Code = listingBytes platform instrs) (wellFormed : WellFormedRegions platform body instrs)
    (run : InjectEnterExitHooks platform body hooks = .ok result)
    (hooked : Hooked semantics hooks push entered left) :
    Brackets semantics (bodyProgram platform body.Code body.EH) (bodyProgram platform result.body.Code result.body.EH)
      returns (eventOf hooks.onEnterHook entered) (eventOf hooks.onExitHook left) := by
  obtain ⟨s, nodes', exported⟩ := injection_of_ok valid code wellFormed run
  exact exported.brackets wellFormed hooked

end Semantics

end Meaning

section Witness

/-- A stack of numbers, calls that show what they take off it, and `leave` over a finally handler. -/
def stackSemantics : Semantics Instruction (List Protection) (List Nat) (Nat × Nat) := fun instruction _ stack =>
  match instruction.opcode, stack with
  | 0x00, stack => .goesOn stack [] .keep .next
  | 0x20, stack => .goesOn (instruction.operand :: stack) [] .keep .next
  | 0x28, argument :: rest => .goesOn rest [(instruction.operand, argument)] .keep .next
  | 0xDD, stack => .goesOn stack [] (.remember 0) (.handler 0)
  | 0xDC, stack => .goesOn stack [] .keep .remembered
  | _, stack => .ends stack []

theorem stackSemantics_hooked (onEnterHook onExitHook : UInt32) (argument : UInt64) :
    Hooked stackSemantics ⟨onEnterHook, onExitHook, some argument⟩ List.cons
      (onEnterHook.toNat, argument.toNat % 2 ^ 32) (onExitHook.toNat, argument.toNat % 2 ^ 32) where
  nop _ _ := rfl
  ldc_i4 _ _ _ _ := rfl
  ret _ stack := ⟨stack, rfl⟩
  enter _ _ _ := rfl
  exit _ _ _ := rfl

theorem InjectEnterExitHooks_preserves_meaning_leftTry : ∃ result,
    InjectEnterExitHooks Ecma335.platform leftTry leftTryHooks = .ok result ∧
      Brackets stackSemantics (bodyProgram Ecma335.platform leftTry.Code leftTry.EH)
        (bodyProgram Ecma335.platform result.body.Code result.body.EH) returns
        (eventOf leftTryHooks.onEnterHook (0x06000001, 7)) (eventOf leftTryHooks.onExitHook (0x06000002, 7)) := by
  obtain ⟨result, run⟩ := leftTry_injected
  exact ⟨result, run, InjectEnterExitHooks_preserves_meaning leftTry_valid leftTry_code leftTry_wellFormed run
    (stackSemantics_hooked 0x06000001 0x06000002 7)⟩

end Witness

end ClrProfiling
