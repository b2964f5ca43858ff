import ClrProfiling.IL.Edits
import ClrProfiling.IL.PassBounds
import ClrProfiling.IL.Regions

/-! The nodes of a `switch` stay together, from Import to the last pass of Export, and the base of
its displacements is its own. -/

namespace ClrProfiling

open LinkedRing Word ILRewriter

/-- The `switch` that a target belongs to, `before` and `after` being what stands around the target. -/
structure OwnSwitch (platform : Platform) (before after : List Instr) where
  front : List Instr
  switch : Instr
  earlier : List Instr
  later : List Instr
  back : List Instr
  before_eq : before = front ++ switch :: earlier
  after_eq : after = later ++ back
  opcode : switch.opcode = CEE_SWITCH
  arguments : ∀ other ∈ earlier ++ later, other.opcode = platform.CEE_SWITCH_ARG
  count : earlier.length + 1 + later.length = switch.operand % 2 ^ 32
  ends : ∀ next ∈ back.head?, next.opcode ≠ platform.CEE_SWITCH_ARG

/-- A `switch` counts the targets right behind it, and targets stand nowhere else. -/
structure SwitchesWhole (platform : Platform) (nodes : List Instr) : Prop where
  counted : ∀ before node after, nodes = before ++ node :: after → node.opcode = CEE_SWITCH →
    (after.takeWhile (Instr.isArgument platform)).length = node.operand % 2 ^ 32
  owned : ∀ before node after, nodes = before ++ node :: after → node.opcode = platform.CEE_SWITCH_ARG →
    Nonempty (OwnSwitch platform before after)

section Blocks

variable {platform : Platform}

/-- A `switch` in front of whole instructions, with all of its targets. -/
theorem WellBlocked.switch (blocked : WellBlocked platform (node :: after)) (opcode : node.opcode = CEE_SWITCH) :
    ∃ arguments rest, after = arguments ++ rest ∧ node.operand % 2 ^ 32 = arguments.length ∧
      (∀ argument ∈ arguments, argument.opcode = platform.CEE_SWITCH_ARG) ∧ WellBlocked platform rest := by
  obtain ⟨blocks, formed, whole⟩ := blocked
  cases blocks with
  | nil => cases whole
  | cons block rest =>
    obtain ⟨first, others⟩ := List.forall_mem_cons.mp formed
    cases block with
    | plain other =>
      obtain ⟨rfl, -⟩ := List.cons_eq_cons.mp whole
      exact absurd opcode first.2
    | switch other arguments =>
      obtain ⟨rfl, rfl⟩ := List.cons_eq_cons.mp whole
      exact ⟨arguments, blockNodes rest, rfl, first.2.1, first.2.2, rest, others, rfl⟩

/-- More nodes in front of a `switch`. -/
def OwnSwitch.behind (own : OwnSwitch platform before after) (earlier : List Instr) :
    OwnSwitch platform (earlier ++ before) after :=
  { own with
    front := earlier ++ own.front
    before_eq := (congrArg (earlier ++ ·) own.before_eq).trans (List.append_assoc ..).symm }

private theorem takeWhile_arguments (internal : ∀ argument ∈ arguments, argument.opcode = platform.CEE_SWITCH_ARG)
    (behind : WellBlocked platform rest) : (arguments ++ rest).takeWhile (Instr.isArgument platform) = arguments := by
  have all : ∀ argument ∈ arguments, argument.isArgument platform = true := by
    intro argument member
    simpa [Instr.isArgument] using internal argument member
  rw [List.takeWhile_append_of_pos all]
  cases rest with
  | nil => simp
  | cons next rest =>
    have external : next.isArgument platform ≠ true := by
      simpa [Instr.isArgument] using behind.head next (by simp)
    rw [List.takeWhile_cons_of_neg external, List.append_nil]

/-- The `switch` of a target in a block. -/
private theorem Block.ownSwitch {block : Block} (formed : block.WellFormed platform)
    (behind : WellBlocked platform rest)
    (nodes : block.nodes = before ++ node :: inside) (opcode : node.opcode = platform.CEE_SWITCH_ARG) :
    Nonempty (OwnSwitch platform before (inside ++ rest)) := by
  cases before with
  | nil =>
    obtain ⟨arguments, whole, -⟩ := Block.tail_switchArg formed
    rw [whole, List.nil_append] at nodes
    obtain ⟨rfl, -⟩ := List.cons_eq_cons.mp nodes
    exact absurd opcode (Block.head_ne_switchArg formed)
  | cons head earlier =>
    cases block with
    | plain other =>
      have length := congrArg List.length nodes
      simp [Block.nodes] at length
    | switch other arguments =>
      obtain ⟨rfl, whole⟩ := List.cons_eq_cons.mp nodes
      obtain ⟨isSwitch, count, internal⟩ := formed
      rw [show arguments = earlier ++ node :: inside from whole] at count internal
      refine ⟨⟨[], other, earlier, inside, rest, rfl, rfl, isSwitch, ?_, ?_, behind.head⟩⟩
      · intro argument member
        apply internal
        rcases List.mem_append.mp member with early | late
        · exact List.mem_append_left _ early
        · exact List.mem_append_right _ (List.mem_cons_of_mem _ late)
      · rw [count, List.length_append, List.length_cons]
        omega

theorem WellBlocked.switchesWhole (blocked : WellBlocked platform nodes) : SwitchesWhole platform nodes where
  counted := by
    intro before node after split opcode
    subst split
    have between : ∀ other ∈ (node :: after).head?, other.opcode ≠ platform.CEE_SWITCH_ARG := by
      intro other member
      obtain rfl : node = other := by simpa using member
      rw [opcode]
      exact platform.switchArg_ne_switch.symm
    obtain ⟨arguments, rest, rfl, count, internal, behind⟩ := (blocked.split between).2.switch opcode
    rw [takeWhile_arguments internal behind, count]
  owned := by
    intro before node after split opcode
    obtain ⟨blocks, formed, rfl⟩ := blocked
    induction blocks generalizing before with
    | nil => simp at split
    | cons block rest ih =>
      obtain ⟨first, others⟩ := List.forall_mem_cons.mp formed
      have behind : WellBlocked platform (blockNodes rest) := ⟨rest, others, rfl⟩
      rw [blockNodes_cons] at split
      rcases List.append_eq_append_iff.mp split with ⟨between, rfl, later⟩ | ⟨inside, whole, later⟩
      · obtain ⟨own⟩ := ih between others later
        exact ⟨own.behind block.nodes⟩
      · cases inside with
        | nil => exact absurd opcode (behind.head node (by rw [← List.nil_append (blockNodes rest), ← later]; rfl))
        | cons head inside =>
          obtain ⟨rfl, rfl⟩ := List.cons_eq_cons.mp later
          exact Block.ownSwitch first behind whole opcode

end Blocks

section Targets

variable {platform : Platform} {body : MethodBody} {hooks : Hooks} {instrs : List RawInstr} {s : ILRewriter}

private theorem rawNodes_head {instr : RawInstr} (valid : instr.Valid platform) (brk : Ptr) (offset : Nat) :
    ∃ head arguments, rawNodes platform brk offset instr = head :: arguments ∧ head.ptr = brk ∧
      head.opcode ≠ platform.CEE_SWITCH_ARG := by
  cases instr with
  | plain opcode operand => exact ⟨_, [], rfl, rfl, valid.1.ne_switchArg⟩
  | switch targets => exact ⟨_, _, rfl, rfl, platform.switchArg_ne_switch.symm⟩

/-- No lookup in the offset table leads to a target of a `switch`. -/
theorem startNode_external (valid : ∀ instr ∈ instrs, instr.Valid platform) (position : Nat)
    (member : node ∈ importedNodes platform instrs) (here : node.ptr = startNode platform instrs position) :
    node.opcode ≠ platform.CEE_SWITCH_ARG := by
  obtain ⟨hubFresh, nodup⟩ := List.nodup_cons.mp (imported_nodup platform instrs)
  have listed := List.mem_map_of_mem (f := Instr.ptr) member
  by_cases boundary : Boundary platform instrs position
  · obtain ⟨before, after, rfl, rfl⟩ := boundary
    cases after with
    | nil =>
      rw [here, List.append_nil, startNode_end, ← List.append_nil before] at listed
      exact absurd listed hubFresh
    | cons instr after =>
      obtain ⟨head, arguments, nodes, ptr, external⟩ := rawNodes_head (valid instr (by simp))
        (m_IL + 1 + (before.map RawInstr.nodes).sum) (0 + (listingBytes platform before).length)
      have inside : resolved platform (startNode platform (before ++ instr :: after)) head ∈
          importedNodes platform (before ++ instr :: after) := by
        apply List.mem_map_of_mem
        rw [loadedNodes_append, loadedNodes, nodes]
        simp
      have same : node = resolved platform (startNode platform (before ++ instr :: after)) head := by
        apply List.inj_on_of_nodup_map nodup member inside
        rw [here, startNode_start, resolved_ptr, ptr]
      rw [same, resolved_opcode]
      exact external
  · rw [here, startNode_elsewhere boundary, importedNodes_ptrs] at listed
    exact absurd (List.mem_range'_1.mp listed).1 (by decide)

theorem Injected.startNode_outside (injected : Injected platform body hooks instrs s)
    (valid : ∀ instr ∈ instrs, instr.Valid platform) (position : Nat) :
    s.OutsideSwitch platform (startNode platform instrs position) := by
  intro node member here internal
  rw [injected.holds.listing_eq] at member
  exact startNode_external valid position (injected_branch member (.of_switchArg internal)) here internal

theorem Injected.null_outside (injected : Injected platform body hooks instrs s) :
    s.OutsideSwitch platform nullptr := by
  intro node member null
  rw [injected.holds.listing_eq] at member
  have low := (injected.holds.allocated node member).1
  rw [null] at low
  exact absurd low (by decide)

theorem Injected.targets_outside (injected : Injected platform body hooks instrs s)
    (valid : ∀ instr ∈ instrs, instr.Valid platform) (member : node ∈ s.listing) (branch : node.isBranch platform) :
    s.OutsideSwitch platform node.operand := by
  rw [injected.holds.listing_eq] at member
  refine (importedNodes_targets (s.OutsideSwitch platform)).mpr ?_ node (injected_branch member branch) branch
  intro before instr after _ target _
  exact injected.startNode_outside valid target

/-- The places a clause begins at, and where its try block ends. -/
def EHClause.boundaries (clause : EHClause) : List Ptr :=
  [clause.m_pTryBegin, clause.m_pTryEnd, clause.m_pHandlerBegin, clause.m_pFilter]

theorem Injected.clauses_outside (injected : Injected platform body hooks instrs s)
    (valid : ∀ instr ∈ instrs, instr.Valid platform) {clause : EHClause} (member : clause ∈ s.m_pEH)
    (pointer : p ∈ clause.boundaries) : s.OutsideSwitch platform p := by
  have looked := injected.startNode_outside valid
  rw [injected.clauses] at member
  obtain ⟨ehInfo, -, rfl⟩ := List.mem_map.mp member
  simp only [EHClause.boundaries, List.mem_cons, List.not_mem_nil, or_false] at pointer
  rcases pointer with rfl | rfl | rfl | rfl
  · exact looked _
  · exact looked _
  · exact looked _
  · rw [importedClause]
    split
    · exact looked _
    · exact injected.null_outside

end Targets

section Bases

variable {platform : Platform}

private theorem PatchInstr_base {loop loop' : Patching} (fields : loop.rewriter.Fields (node :: rest))
    (placed : Placed platform loop.rewriter place (node :: rest))
    (turn : PatchInstr platform loop node.ptr = .ok loop') :
    loop'.switchBase = baseBehind loop.switchBase place node := by
  rcases PatchInstr_cases fields placed turn with ⟨-, rfl⟩ | ⟨branch, -, -, rfl⟩ |
    ⟨branch, -, -, slot, buffer, -, -, rfl⟩
  · rfl
  · exact (baseBehind_branch loop.switchBase place branch).symm
  · exact (baseBehind_branch loop.switchBase place branch).symm

/-- The second pass keeps the base along the targets of a `switch`. -/
private theorem patch_arguments {arguments rest : List Instr} {loop loop' : Patching}
    (run : (arguments.map Instr.ptr).foldlM (PatchInstr platform) loop = .ok loop')
    (internal : ∀ argument ∈ arguments, argument.opcode = platform.CEE_SWITCH_ARG)
    (holds : loop.rewriter.Holds (done ++ (arguments ++ rest)))
    (placed : Placed platform loop.rewriter place (arguments ++ rest)) : loop'.switchBase = loop.switchBase := by
  induction arguments generalizing loop done place with
  | nil =>
    cases run
    rfl
  | cons node arguments ih =>
    rw [List.map_cons, List.foldlM_cons] at run
    obtain ⟨middle, turn, later⟩ := Outcome.bind_eq_ok_iff.mp run
    obtain ⟨first, internal⟩ := List.forall_mem_cons.mp internal
    have fields : loop.rewriter.Fields (node :: (arguments ++ rest)) :=
      fun other member => holds.fields other (List.mem_append_right _ member)
    have base := PatchInstr_base fields placed turn
    rw [baseBehind, if_neg (first ▸ platform.switchArg_ne_switch)] at base
    have alone : ([node].map Instr.ptr).foldlM (PatchInstr platform) loop = .ok middle := by simpa using turn
    obtain ⟨-, done', held, onward⟩ := patch_front alone holds placed
    exact (ih later internal held onward).trans base

private theorem patch_own {rest : List Instr} {loop loop' : Patching} (own : OwnSwitch platform before after)
    (run : (before.map Instr.ptr).foldlM (PatchInstr platform) loop = .ok loop')
    (holds : loop.rewriter.Holds (before ++ rest)) (placed : Placed platform loop.rewriter 0 (before ++ rest)) :
    loop'.switchBase = wrap32 (totalSize platform own.front + 1 + 4 * (own.switch.operand % 2 ^ 32 + 1)) := by
  obtain ⟨front, switch, earlier, later, back, rfl, rfl, isSwitch, internal, -, -⟩ := own
  rw [List.map_append, List.foldlM_append] at run
  obtain ⟨fronted, first, run⟩ := Outcome.bind_eq_ok_iff.mp run
  rw [List.map_cons, List.foldlM_cons] at run
  obtain ⟨switched, turn, last⟩ := Outcome.bind_eq_ok_iff.mp run
  rw [List.append_assoc, List.cons_append] at holds placed
  obtain ⟨-, done, held, there⟩ := patch_front first (show Holds _ ([] ++ _) from holds) placed
  have fields : fronted.rewriter.Fields (switch :: (earlier ++ rest)) :=
    fun other member => held.fields other (List.mem_append_right _ member)
  have base := PatchInstr_base fields there turn
  have alone : ([switch].map Instr.ptr).foldlM (PatchInstr platform) fronted = .ok switched := by simpa using turn
  obtain ⟨-, done', held', there'⟩ := patch_front alone held there
  have kept := patch_arguments last (fun other member => internal other (List.mem_append_left _ member)) held' there'
  rw [kept, base, baseBehind, if_pos isSwitch, Nat.zero_add]

private theorem PatchInstr_argument {node : Instr} {loop loop' : Patching}
    (opcode : loop.rewriter.m_opcode node.ptr = platform.CEE_SWITCH_ARG)
    (operand : loop.rewriter.m_operand node.ptr = node.operand) (turn : PatchInstr platform loop node.ptr = .ok loop') :
    store loop.buffer (loop.rewriter.m_offset node.ptr)
      (LittleEndian.encode 4 (sub32 (loop.rewriter.m_offset node.operand) loop.switchBase)) = .ok loop'.buffer := by
  unfold PatchInstr at turn
  dsimp only at turn
  rw [opcode, if_neg platform.switchArg_ne_switch, if_pos rfl, m_pTarget, operand] at turn
  obtain ⟨target, found, written⟩ := Outcome.bind_eq_ok_iff.mp turn
  obtain rfl := deref_eq_ok found
  obtain ⟨buffer, stored, done⟩ := Outcome.bind_eq_ok_iff.mp written
  cases done
  exact stored

theorem OwnSwitch.list_eq (own : OwnSwitch platform before after) (node : Instr) :
    before ++ node :: after = own.front ++ own.switch :: (own.earlier ++ node :: own.later) ++ own.back := by
  obtain ⟨front, switch, earlier, later, back, rfl, rfl, -⟩ := own
  simp

private theorem OwnSwitch.size_eq (own : OwnSwitch platform before after)
    (opcode : node.opcode = platform.CEE_SWITCH_ARG) :
    totalSize platform (own.front ++ own.switch :: (own.earlier ++ node :: own.later)) =
      totalSize platform own.front + 1 + 4 * (own.switch.operand % 2 ^ 32 + 1) := by
  have targets : totalSize platform (own.earlier ++ node :: own.later) =
    4 * (own.earlier ++ node :: own.later).length := by
    apply totalSize_arguments
    intro other member
    rcases List.mem_append.mp member with early | late
    · exact own.arguments other (List.mem_append_left _ early)
    · rcases List.mem_cons.mp late with rfl | listed
      · exact opcode
      · exact own.arguments other (List.mem_append_right _ listed)
  have count := own.count
  rw [totalSize_append, totalSize_cons, own.opcode, nodeSize_switch, targets, List.length_append, List.length_cons]
  omega

end Bases

section Whole

variable {platform : Platform} {body : MethodBody} {hooks : Hooks} {s s' : ILRewriter}

/-- The base the second pass takes at a target is the end of the `switch` of that target, and the
displacement it writes there is taken from that end. -/
def OwnBases (platform : Platform) (s : ILRewriter) (pass : Emission) : Prop :=
  ∀ before node after loop, s.listing = before ++ node :: after → node.opcode = platform.CEE_SWITCH_ARG →
    (before.map Instr.ptr).foldlM (PatchInstr platform) ⟨pass.rewriter, pass.buffer, 0, false⟩ = .ok loop →
    ∃ own : OwnSwitch platform before after,
      loop.switchBase = pass.rewriter.m_offset (rightOf m_IL (own.back.map Instr.ptr)) ∧
      loop.switchBase = wrap32 (pass.rewriter.m_offset own.switch.ptr + 1 + 4 * (own.switch.operand % 2 ^ 32 + 1)) ∧
      ∀ loop', PatchInstr platform loop node.ptr = .ok loop' →
        store loop.buffer (pass.rewriter.m_offset node.ptr)
          (LittleEndian.encode 4 (sub32 (pass.rewriter.m_offset node.operand)
            (pass.rewriter.m_offset (rightOf m_IL (own.back.map Instr.ptr))))) = .ok loop'.buffer

theorem ownBases_of_blocked {nodes : List Instr} {buffer : Buffer} {pass : Emission} (holds : s.Holds nodes)
    (blocked : WellBlocked platform nodes) (narrow : buffer.size < 2 ^ 32)
    (emit : s.EmitPass platform buffer = .ok pass) :
    OwnBases platform s pass := by
  intro before node after loop split opcode run
  rw [holds.listing_eq] at split
  subst split
  have emitted := EmitPass_eq_ok holds narrow emit
  have nodup := emitted.holds.ring.nodup
  obtain ⟨own⟩ := blocked.switchesWhole.owned before node after rfl opcode
  have base := patch_own own run emitted.holds emitted.placed
  have list := own.list_eq node
  have ends : loop.switchBase = pass.rewriter.m_offset (rightOf m_IL (own.back.map Instr.ptr)) := by
    have final : rightOf m_IL (own.back.map Instr.ptr) ∈ m_IL :: (before ++ node :: after).map Instr.ptr := by
      rw [list, List.map_append]
      exact rightOf_mem ..
    rw [emitted.starts _ final, list, startOf_cut platform (list ▸ nodup), base, own.size_eq opcode]
  refine ⟨own, ends, ?_, fun loop' turn => ?_⟩
  · rw [List.append_assoc, List.cons_append] at list
    have place := (everyAt_iff.mp emitted.placed own.front own.switch _ list).1
    rw [base, place, Nat.zero_add, Nat.add_assoc, Nat.add_assoc, wrap32_add_left]
  · obtain ⟨offsets, done, held, -⟩ := patch_front run (show Holds _ ([] ++ _) from emitted.holds) emitted.placed
    have written := PatchInstr_argument ((held.opcode node (by simp)).trans opcode) (held.operand node (by simp)) turn
    rwa [offsets, ends] at written

/-- The nodes of a `switch` stand together in the list Export is given, nothing leads in between, and in
every pass each displacement is taken from the end of its own `switch`. -/
theorem switches_stay_whole (imported : Import platform body = .ok s) (added : s.AddProbes platform hooks = .ok s') :
    SwitchesWhole platform s'.listing ∧
      (∀ node ∈ s'.listing, node.isBranch platform → s'.OutsideSwitch platform node.operand) ∧
      (∀ clause ∈ s'.m_pEH, ∀ p ∈ clause.boundaries, s'.OutsideSwitch platform p) ∧
      ∀ s'' buffer pass, PassStart platform s' s'' buffer → s''.EmitPass platform buffer = .ok pass →
        OwnBases platform s'' pass := by
  obtain ⟨instrs, accepted⟩ := Import_eq_ok imported
  have injected := injected_of_added accepted added
  refine ⟨?_, ?_, ?_, ?_⟩
  · rw [injected.holds.listing_eq]
    exact injected.blocked.switchesWhole
  · intro node member branch
    exact injected.targets_outside accepted.valid member branch
  · intro clause member p pointer
    exact injected.clauses_outside accepted.valid member pointer
  · intro s'' buffer pass start emit
    obtain ⟨nodes, widening, held, size⟩ := start.holds injected.holds (wrap32_lt _)
    exact ownBases_of_blocked held (injected.blocked.widened widening) (size.trans_lt (wrap32_lt _)) emit

end Whole

section Witness

/-- `switch (0) { case 0: return; case 1: ; }` -/
def switchInstrs : List RawInstr := [.plain 0x16 0, .switch [1, 0], .plain CEE_NOP 0, .plain CEE_RET 0]

def switchBody : MethodBody where
  Flags := 0
  MaxStack := 8
  LocalVarSigTok := 0
  Code := [0x16, 0x45, 0x02, 0x00, 0x00, 0x00, 0x01, 0x00, 0x00, 0x00, 0x00, 0x00, 0x00, 0x00, 0x00, 0x2A]
  EH := []
  maxStack_lt := smallStack_lt
  inImage := by decide
  clauses_le := noClauses_le

/-- With both hooks the targets stay behind their `switch`. -/
theorem switches_stay_whole_probed : ∃ s s', Import Ecma335.platform switchBody = .ok s ∧
    s.AddProbes Ecma335.platform ⟨0x06000001, 0x06000002, some 7⟩ = .ok s' ∧
    SwitchesWhole Ecma335.platform s'.listing ∧
      (∀ node ∈ s'.listing, node.isBranch Ecma335.platform → s'.OutsideSwitch Ecma335.platform node.operand) ∧
      (∀ clause ∈ s'.m_pEH, ∀ p ∈ clause.boundaries, s'.OutsideSwitch Ecma335.platform p) ∧
      ∀ s'' buffer pass, PassStart Ecma335.platform s' s'' buffer →
        s''.EmitPass Ecma335.platform buffer = .ok pass → OwnBases Ecma335.platform s'' pass := by
  have valid : ∀ instr ∈ switchInstrs, instr.Valid Ecma335.platform := by
    intro instr member
    simp only [switchInstrs, List.mem_cons, List.not_mem_nil, or_false] at member
    rcases member with rfl | rfl | rfl | rfl <;> (simp only [RawInstr.Valid]; decide)
  have code : switchBody.Code = listingBytes Ecma335.platform switchInstrs := by decide
  obtain ⟨s, s', accepted, added, -, -⟩ := injected_of_listing valid code (by simp [switchBody])
    ⟨0x06000001, 0x06000002, some 7⟩ fun _ => ⟨0, by simp [switchInstrs]⟩
  exact ⟨s, s', accepted, added, switches_stay_whole accepted added⟩

end Witness

end ClrProfiling
