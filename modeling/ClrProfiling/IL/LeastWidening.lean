import ClrProfiling.IL.Ecma335
import ClrProfiling.IL.Injection

/-! Branch relaxation: the `again` loop widens the branches every layout has to widen, and
no other. -/

namespace ClrProfiling

open LinkedRing Word ILRewriter

section Displacements

variable (platform : Platform)

/-- The list with the short branches of a set given their long form. -/
def withLong (long : Ptr → Bool) (nodes : List Instr) : List Instr :=
  nodes.map fun node =>
    if platform.s_OpCodeFlags node.opcode = 0x11 ∧ long node.ptr = true then
      { node with opcode := widened node.opcode }
    else node

/-- How far a branch at `place` jumps from behind itself. -/
def displacement (nodes : List Instr) (place : Nat) (node : Instr) : Int :=
  (startOf platform nodes node.operand : Int) - (place + nodeSize platform node.opcode : Nat)

/-- Every branch that is short reaches its target. -/
def Reaches (nodes : List Instr) : Prop :=
  EveryAt platform (fun place node => platform.s_OpCodeFlags node.opcode = 0x11 →
    -128 ≤ displacement platform nodes place node ∧ displacement platform nodes place node ≤ 127) 0 nodes

end Displacements

section Monotonicity

variable {platform : Platform}

/-- The long form of a branch is three bytes longer. -/
theorem nodeSize_widened (widening : Widened platform node node') :
    nodeSize platform node.opcode ≤ nodeSize platform node'.opcode := by
  rcases widening.2.2 with same | ⟨short, long⟩
  · rw [same]
  · have wide := flags_widened short
    have external (opcode : Nat) (branch : platform.s_OpCodeFlags opcode &&& OPCODEFLAGS_BranchTarget ≠ 0)
        (page : opcode < 0x100) : (headBytes platform opcode).length = 1 := by
      apply length_headBytes_branch branch
      have onePage := platform.onePage
      simp only [OpcodeDef.CEE_SWITCH_ARG]
      omega
    have range := short_range short
    simp only [CEE_BR_S, CEE_BLT_UN_S, CEE_LEAVE_S] at range
    have shortHead := external node.opcode (by rw [short]; decide) (by omega)
    simp only [nodeSize, shortHead, short, operandWidth, OPCODEFLAGS_SizeMask, long, wide]
    simp

theorem totalSize_widened (widening : List.Forall₂ (Widened platform) nodes nodes') :
    totalSize platform nodes ≤ totalSize platform nodes' := by
  induction widening with
  | nil => exact Nat.le_refl _
  | cons first _ ih =>
    rw [totalSize_cons, totalSize_cons]
    exact Nat.add_le_add (nodeSize_widened first) ih

theorem startOf_widened (widening : List.Forall₂ (Widened platform) nodes nodes') (p : Ptr) :
    startOf platform nodes p ≤ startOf platform nodes' p := by
  induction widening with
  | nil => exact Nat.le_refl _
  | cons first _ ih =>
    rw [startOf, startOf, first.1]
    split
    · exact Nat.le_refl _
    · exact Nat.add_le_add (nodeSize_widened first) ih

private theorem gap_widened (widening : List.Forall₂ (Widened platform) nodes nodes') (p : Ptr) :
    totalSize platform nodes - startOf platform nodes p ≤ totalSize platform nodes' - startOf platform nodes' p := by
  induction widening with
  | nil => exact Nat.le_refl _
  | cons first rest ih =>
    have total := totalSize_widened rest
    have size := nodeSize_widened first
    rw [startOf, startOf, first.1, totalSize_cons, totalSize_cons]
    split
    · omega
    · omega

private theorem startOf_inside {before : List Instr} (inside : p ∈ before.map Instr.ptr) (after : List Instr) :
    startOf platform (before ++ after) p = startOf platform before p := by
  induction before with
  | nil => simp at inside
  | cons node rest ih =>
    rw [List.cons_append, startOf, startOf]
    split
    · rfl
    · rename_i apart
      have later := (List.mem_cons.mp inside).resolve_left fun same => apart same.symm
      rw [ih later]

/-- A branch that is short behind further widenings reaches its target in front of them
if it does so behind them. -/
private theorem reach_of_widened {before after before' after' : List Instr}
    (front : List.Forall₂ (Widened platform) before before') (back : List.Forall₂ (Widened platform) after after')
    (reach : -128 ≤ displacement platform (before' ++ node :: after') (totalSize platform before') node ∧
      displacement platform (before' ++ node :: after') (totalSize platform before') node ≤ 127) :
    -128 ≤ displacement platform (before ++ node :: after) (totalSize platform before) node ∧
      displacement platform (before ++ node :: after) (totalSize platform before) node ≤ 127 := by
  have whole : List.Forall₂ (Widened platform) (before ++ [node]) (before' ++ [node]) :=
    List.rel_append front (.cons (.refl node) .nil)
  have sizes (list : List Instr) :
      totalSize platform (list ++ [node]) = totalSize platform list + nodeSize platform node.opcode := by
    rw [totalSize_append, totalSize_cons, totalSize_nil, Nat.add_zero]
  simp only [displacement, ← sizes] at reach ⊢
  rw [List.append_cons] at reach ⊢
  by_cases inside : node.operand ∈ (before ++ [node]).map Instr.ptr
  · have inside' : node.operand ∈ (before' ++ [node]).map Instr.ptr := by rwa [widened_ptrs whole]
    rw [startOf_inside inside'] at reach
    rw [startOf_inside inside]
    have gap := gap_widened whole node.operand
    have bound : startOf platform (before ++ [node]) node.operand ≤ _ := startOf_le _ _
    have bound' : startOf platform (before' ++ [node]) node.operand ≤ _ := startOf_le _ _
    omega
  · have outside : node.operand ∉ (before' ++ [node]).map Instr.ptr := by rwa [widened_ptrs whole]
    rw [startOf_append platform outside] at reach
    rw [startOf_append platform inside]
    have farther := startOf_widened back node.operand
    omega

end Monotonicity

section Passes

variable {platform : Platform}

/-- What the second pass makes of a list that starts at `place`. -/
def widenFar (platform : Platform) (starts : Ptr → Nat) : (place : Nat) → List Instr → List Instr
  | _, [] => []
  | place, node :: rest =>
    (if FarShort platform starts place node then { node with opcode := widened node.opcode } else node) ::
      widenFar platform starts (place + nodeSize platform node.opcode) rest

private theorem patch_widens {rest : List Instr} {loop : Patching}
    (run : (rest.map Instr.ptr).foldlM (PatchInstr platform) loop = .ok loop')
    (holds : loop.rewriter.Holds (done ++ rest)) (placed : Placed platform loop.rewriter place rest) :
    loop'.rewriter.Holds (done ++ widenFar platform loop.rewriter.m_offset place rest) := by
  induction rest generalizing loop done place with
  | nil =>
    cases run
    exact holds
  | cons node rest ih =>
    rw [List.map_cons, List.foldlM_cons] at run
    obtain ⟨middle, turn, later⟩ := Outcome.bind_eq_ok_iff.mp run
    have fields : loop.rewriter.Fields (node :: rest) :=
      fun other member => holds.fields other (List.mem_append_right _ member)
    have holds' := holds.past
    rw [widenFar]
    rcases PatchInstr_cases fields placed turn with ⟨plain, rfl⟩ | ⟨-, -, far, rfl⟩ |
      ⟨-, -, near, slot, buffer, -, -, rfl⟩
    · have near : ¬FarShort platform loop.rewriter.m_offset place node := fun far =>
        plain (by simp [Instr.isBranch, far.1, OPCODEFLAGS_BranchTarget])
      rw [if_neg near, List.append_cons]
      have next := ih later holds' placed.2
      exact next
    · have held := holds.widen
      rw [if_pos far, List.append_cons]
      have next := ih later held placed.2
      exact next
    · rw [if_neg near, List.append_cons]
      have next := ih later holds' placed.2
      exact next

/-- Every layout that reaches all targets has the widenings of a pass. -/
private theorem widenFar_below {starts : Ptr → Nat} {whole solution : List Instr} (fine : Reaches platform solution)
    (size : totalSize platform whole < 2 ^ 31) (front : List.Forall₂ (Widened platform) before before')
    (back : List.Forall₂ (Widened platform) rest rest') (split : whole = before ++ rest)
    (split' : solution = before' ++ rest')
    (exact : ∀ node ∈ rest, node.isBranch platform → starts node.operand = startOf platform whole node.operand) :
    List.Forall₂ (Widened platform) (widenFar platform starts (totalSize platform before) rest) rest' := by
  induction back generalizing before before' with
  | nil => exact .nil
  | @cons node node' rest rest' first back ih =>
    obtain ⟨here, exact⟩ := List.forall_mem_cons.mp exact
    have sizes : totalSize platform (before ++ [node]) = totalSize platform before + nodeSize platform node.opcode := by
      rw [totalSize_append, totalSize_cons, totalSize_nil, Nat.add_zero]
    have later := ih (List.rel_append front (.cons first .nil)) (by simpa using split) (by simpa using split') exact
    rw [sizes] at later
    rw [widenFar]
    refine .cons ?_ later
    by_cases far : FarShort platform starts (totalSize platform before) node
    · rw [if_pos far]
      rcases first.2.2 with same | ⟨-, long⟩
      · -- A branch the solution leaves short reaches its target in the shorter layout too.
        exfalso
        have unchanged : node' = node := by
          obtain ⟨ptr, operand, -⟩ := first
          cases node
          cases node'
          simp_all
        subst unchanged
        have reach := everyAt_iff.mp fine before' node' rest' split' far.1
        rw [split', Nat.zero_add] at reach
        have near := reach_of_widened front back reach
        have branch : node'.isBranch platform := by simp [Instr.isBranch, far.1, OPCODEFLAGS_BranchTarget]
        have target : startOf platform whole node'.operand ≤ totalSize platform whole := startOf_le ..
        have bound : totalSize platform before + nodeSize platform node'.opcode ≤ totalSize platform whole := by
          rw [split, totalSize_append, totalSize_cons]
          omega
        have fits := (fitsInt8_sub32 (Nat.lt_of_le_of_lt target size) (Nat.lt_of_le_of_lt bound size)).mpr
          (by simpa only [displacement, split] using near)
        rw [← here branch, far.2] at fits
        cases fits
      · exact ⟨first.1, first.2.1, .inl long⟩
    · rw [if_neg far]
      exact first

/-- The `again` loop stays below every layout that reaches all targets, and takes no more
passes than there are short branches, and one. -/
private theorem Again_below {s : ILRewriter} {buffer : Buffer} (holds : s.Holds nodes) (closed : Closed platform nodes)
    (narrow : buffer.size < 2 ^ 32)
    (small : ∀ wide, List.Forall₂ (Widened platform) nodes wide → totalSize platform wide < 2 ^ 31)
    (run : Again platform fuel s buffer passes = .ok (s', buffer', offset, passes')) :
    passes' ≤ passes + shortCount platform nodes + 1 ∧
      ∀ solution, List.Forall₂ (Widened platform) nodes solution → Reaches platform solution →
        ∃ nodes', s'.Holds nodes' ∧ List.Forall₂ (Widened platform) nodes' solution := by
  induction fuel generalizing s nodes buffer passes with
  | zero => cases run
  | succ fuel ih =>
    rw [Again] at run
    obtain ⟨pass, emit, rest⟩ := Outcome.bind_eq_ok_iff.mp run
    have emitted := EmitPass_eq_ok holds narrow emit
    cases branch : pass.fBranch with
    | false =>
      rw [branch, if_neg (by decide)] at rest
      cases rest
      exact ⟨by omega, fun solution below _ => ⟨nodes, emitted.holds, below⟩⟩
    | true =>
      rw [branch, if_pos rfl] at rest
      obtain ⟨patched, patch, rest⟩ := Outcome.bind_eq_ok_iff.mp rest
      have fold := patch
      rw [PatchPass_fold emitted.holds] at fold
      have held := patch_widens fold (show pass.rewriter.Holds ([] ++ nodes) from emitted.holds) emitted.placed
      obtain ⟨nodes', widening, held', -, size, -, again, -⟩ :=
        patch_all fold (show pass.rewriter.Holds ([] ++ nodes) from emitted.holds) emitted.placed
      have same : nodes' = widenFar platform pass.rewriter.m_offset 0 nodes :=
        held'.listing_eq.symm.trans held.listing_eq
      have total := small nodes (forall₂_widened_refl nodes)
      have exact : ∀ node ∈ nodes, node.isBranch platform →
          pass.rewriter.m_offset node.operand = startOf platform nodes node.operand := by
        intro node member isBranch
        have bound : startOf platform nodes node.operand ≤ totalSize platform nodes := startOf_le ..
        rw [emitted.starts _ (closed node member isBranch), wrap32_of_lt (by omega)]
      have below (solution : List Instr) (wide : List.Forall₂ (Widened platform) nodes solution)
          (fine : Reaches platform solution) : List.Forall₂ (Widened platform) nodes' solution := by
        have front : List.Forall₂ (Widened platform) [] [] := .nil
        rw [same]
        exact widenFar_below fine total front wide rfl rfl exact
      have held' : patched.rewriter.Holds nodes' := held'
      dsimp only at size again
      rw [Bool.false_or] at again
      cases asked : patched.fTryAgain with
      | false =>
        rw [asked, if_neg (by decide)] at rest
        cases rest
        exact ⟨by omega, fun solution wide fine => ⟨nodes', held', below solution wide fine⟩⟩
      | true =>
        rw [asked, if_pos rfl] at rest
        rw [asked] at again
        have fewer : shortCount platform nodes' < shortCount platform nodes := by simpa using again.symm
        obtain ⟨count, least⟩ := ih held' (closed.widened widening) ((size.trans emitted.size).trans_lt narrow)
          (fun wide further => small wide (forall₂_widened_trans widening further)) rest
        exact ⟨by omega, fun solution wide fine => least solution (below solution wide fine) fine⟩

end Passes

section Sets

variable {platform : Platform}

theorem withLong_widened (long : Ptr → Bool) (nodes : List Instr) :
    List.Forall₂ (Widened platform) nodes (withLong platform long nodes) := by
  induction nodes with
  | nil => exact .nil
  | cons node rest ih =>
    refine .cons ?_ ih
    dsimp only
    split
    · rename_i chosen
      exact ⟨rfl, rfl, .inr ⟨chosen.1, rfl⟩⟩
    · exact .refl node

private theorem widened_ne (short : platform.s_OpCodeFlags opcode = 0x11) : widened opcode ≠ opcode := by
  intro same
  have wide := flags_widened short
  rw [same, short] at wide
  exact absurd wide (by decide)

/-- Every widening is that of a set of short branches. -/
private theorem exists_withLong (nodup : (nodes.map Instr.ptr).Nodup)
    (widening : List.Forall₂ (Widened platform) nodes nodes') :
    ∃ long, nodes' = withLong platform long nodes := by
  induction widening with
  | nil => exact ⟨fun _ => false, rfl⟩
  | @cons node node' rest rest' first _ ih =>
    obtain ⟨fresh, nodup⟩ := List.nodup_cons.mp nodup
    obtain ⟨long, rfl⟩ := ih nodup
    refine ⟨Function.update long node.ptr (decide (node'.opcode ≠ node.opcode)), ?_⟩
    rw [withLong, withLong, List.map_cons, Function.update_self]
    congr 1
    · obtain ⟨ptr, operand, same | ⟨short, wide⟩⟩ := first
      · rw [if_neg (by simp [same])]
        cases node
        cases node'
        simp_all
      · rw [if_pos ⟨short, by simpa [wide] using widened_ne short⟩]
        cases node
        cases node'
        simp_all
    · apply List.map_congr_left
      intro other member
      have apart : other.ptr ≠ node.ptr := fun same => fresh (same ▸ List.mem_map_of_mem member)
      rw [Function.update_of_ne apart]

private theorem subset_of_widened {long other : Ptr → Bool}
    (widening : List.Forall₂ (Widened platform) (withLong platform long nodes) (withLong platform other nodes)) :
    ∀ node ∈ nodes, platform.s_OpCodeFlags node.opcode = 0x11 → long node.ptr = true → other node.ptr = true := by
  induction nodes with
  | nil => simp
  | cons node rest ih =>
    rw [withLong, withLong, List.map_cons, List.map_cons] at widening
    cases widening with
    | cons first later =>
      refine List.forall_mem_cons.mpr ⟨fun short chosen => ?_, ih later⟩
      by_contra kept
      rw [if_pos ⟨short, chosen⟩, if_neg fun both => kept both.2] at first
      rcases first.2.2 with same | ⟨again, -⟩
      · exact widened_ne short same.symm
      · rw [flags_widened short] at again
        exact absurd again (by decide)

private theorem reaches_of_near (size : totalSize platform nodes < 2 ^ 31)
    (near : EveryAt platform (fun place node => ¬FarShort platform (startOf platform nodes) place node) 0 nodes) :
    Reaches platform nodes := by
  apply everyAt_iff.mpr
  intro before node after split short
  have reach := everyAt_iff.mp near before node after split
  have target : startOf platform nodes node.operand ≤ totalSize platform nodes := startOf_le ..
  have bound : 0 + totalSize platform before + nodeSize platform node.opcode ≤ totalSize platform nodes := by
    rw [split, totalSize_append, totalSize_cons]
    omega
  have fits : fitsInt8 (sub32 (startOf platform nodes node.operand)
      (0 + totalSize platform before + nodeSize platform node.opcode)) = true := by
    simpa [FarShort, short] using reach
  exact (fitsInt8_sub32 (Nat.lt_of_le_of_lt target size) (Nat.lt_of_le_of_lt bound size)).mp fits

theorem widened_range (short : platform.s_OpCodeFlags opcode = 0x11) (branch : opcode ≠ CEE_LEAVE_S) :
    (CEE_BR_S ≤ opcode ∧ opcode ≤ CEE_BLT_UN_S) ∧ CEE_BR ≤ widened opcode ∧ widened opcode ≤ CEE_BLT_UN := by
  have range := (short_range short).resolve_right branch
  refine ⟨range, ?_⟩
  rw [widened, if_neg branch]
  simp only [CEE_BR_S, CEE_BLT_UN_S, CEE_BR, CEE_BLT_UN] at range ⊢
  omega

/-- The `again` loop ends within one pass more than there are short branches, with the
least set of branches any layout has to widen. -/
theorem relaxation_least {s : ILRewriter} (holds : s.Holds nodes) (closed : Closed platform nodes)
    (room : 10 * nodes.length < 2 ^ 31) :
    (∃ s' buffer offset passes, Again platform s.brk s (s.outputBuffer platform) 0 = .ok (s', buffer, offset, passes) ∧
      passes ≤ shortCount platform nodes + 1 ∧
        ∃ long, s'.Holds (withLong platform long nodes) ∧ Reaches platform (withLong platform long nodes) ∧
          ∀ other, Reaches platform (withLong platform other nodes) →
            ∀ node ∈ nodes, platform.s_OpCodeFlags node.opcode = 0x11 → long node.ptr = true → other node.ptr = true) ∧
    ∀ opcode, platform.s_OpCodeFlags opcode = 0x11 → opcode ≠ CEE_LEAVE_S →
      (CEE_BR_S ≤ opcode ∧ opcode ≤ CEE_BLT_UN_S) ∧ CEE_BR ≤ widened opcode ∧ widened opcode ≤ CEE_BLT_UN := by
  have size : (s.outputBuffer platform).size = 10 * nodes.length := by
    rw [outputBuffer_size platform holds, outputRoom, Nat.mod_eq_of_lt (by omega)]
  have narrow : (s.outputBuffer platform).size < 2 ^ 32 := by omega
  have bounded (wide : List Instr) (widening : List.Forall₂ (Widened platform) nodes wide) :
      totalSize platform wide < 2 ^ 31 := by
    have worst : totalSize platform wide ≤ 10 * wide.length := totalSize_le wide
    rw [← widening.length_eq] at worst
    omega
  refine ⟨?_, fun opcode => widened_range⟩
  have short : shortCount platform nodes ≤ nodes.length := List.countP_le_length
  obtain ⟨⟨s', buffer, offset, passes⟩, run⟩ := Again_succeeds holds closed narrow (Nat.le_of_eq size.symm)
    (short.trans_lt (Nat.lt_of_succ_lt holds.length_lt))
  obtain ⟨nodes', widening, laid, -⟩ := Again_eq_ok holds closed narrow run
  obtain ⟨count, least⟩ := Again_below holds closed narrow bounded run
  obtain ⟨long, rfl⟩ := exists_withLong holds.ptrs_nodup widening
  refine ⟨s', buffer, offset, passes, run, by omega, long, laid.holds, reaches_of_near (bounded _ widening) laid.near,
    fun other fine => ?_⟩
  obtain ⟨nodes'', held, below⟩ := least _ (withLong_widened other nodes) fine
  obtain rfl : withLong platform long nodes = nodes'' := laid.holds.listing_eq.symm.trans held.listing_eq
  exact subset_of_widened below

end Sets

section Witness

/-- A branch over a RET, whose target an exit probe puts out of reach. -/
def farBranchInstrs : List RawInstr :=
  .plain CEE_BR_S 121 :: (List.replicate 12 [.plain CEE_LDC_I8 0, .plain CEE_POP 0]).flatten ++
    [.plain CEE_RET 0, .plain CEE_RET 0]

def farBranch : MethodBody where
  Flags := 0
  MaxStack := 8
  LocalVarSigTok := 0
  Code := [0x2B, 121] ++ (List.replicate 12 [0x21, 0, 0, 0, 0, 0, 0, 0, 0, 0x26]).flatten ++ [0x2A, 0x2A]
  EH := []
  maxStack_lt := smallStack_lt
  inImage := by decide +kernel
  clauses_le := noClauses_le

def farBranchHooks : Hooks := ⟨0x06000001, 0x06000002, some 7⟩

theorem farBranch_injected : ∃ s s', Import Ecma335.platform farBranch = .ok s ∧
    s.AddProbes Ecma335.platform farBranchHooks = .ok s' ∧
    Injected Ecma335.platform farBranch farBranchHooks farBranchInstrs s' := by
  have valid : ∀ instr ∈ farBranchInstrs, instr.Valid Ecma335.platform := by
    have kinds : farBranchInstrs ⊆ [.plain CEE_BR_S 121, .plain CEE_LDC_I8 0, .plain CEE_POP 0, .plain CEE_RET 0] := by
      decide +kernel
    intro instr member
    have kind := kinds member
    simp only [List.mem_cons, List.not_mem_nil, or_false] at kind
    rcases kind with rfl | rfl | rfl | rfl <;> (simp only [RawInstr.Valid]; decide)
  have ret : RawInstr.plain CEE_RET 0 ∈ farBranchInstrs := by simp [farBranchInstrs]
  have code : farBranch.Code = listingBytes Ecma335.platform farBranchInstrs := by decide +kernel
  obtain ⟨s, s', run, added, -, injected⟩ := injected_of_listing valid code (by simp [farBranch]) farBranchHooks
    fun _ => ⟨0, ret⟩
  exact ⟨s, s', run, added, injected⟩

/-- The list in front of Export. -/
private def farBranchNodes : List Instr :=
  (injectedNodes Ecma335.platform farBranchHooks farBranchInstrs).map Probed.node

private theorem farBranch_branches : ∀ node ∈ farBranchNodes,
    Ecma335.platform.s_OpCodeFlags node.opcode = 0x11 → node = ⟨m_IL + 1, CEE_BR_S, m_IL + 27⟩ := by
  decide +kernel

private theorem farBranch_far : ¬Reaches Ecma335.platform farBranchNodes := by
  intro reaches
  have far := everyAt_iff.mp reaches (farBranchNodes.take 2) ⟨m_IL + 1, CEE_BR_S, m_IL + 27⟩ (farBranchNodes.drop 3)
    (by decide +kernel) (by decide)
  revert far
  decide +kernel

/-- The branch is widened in two passes. -/
theorem relaxation_least_farBranch : ∃ s s' s'' buffer offset passes, Import Ecma335.platform farBranch = .ok s ∧
    s.AddProbes Ecma335.platform farBranchHooks = .ok s' ∧
    Again Ecma335.platform s'.brk s' (s'.outputBuffer Ecma335.platform) 0 = .ok (s'', buffer, offset, passes) ∧
    passes ≤ 2 ∧ ∃ node ∈ s''.listing, node.opcode = CEE_BR := by
  obtain ⟨s, s', run, added, injected⟩ := farBranch_injected
  have closed : Closed Ecma335.platform farBranchNodes := by
    unfold Closed
    decide +kernel
  obtain ⟨⟨s'', buffer, offset, passes, again, count, long, held, reaches, -⟩, -⟩ :=
    relaxation_least injected.holds closed (by decide +kernel)
  refine ⟨s, s', s'', buffer, offset, passes, run, added, again, count.trans (by decide +kernel), ?_⟩
  have listed : ⟨m_IL + 1, CEE_BR_S, m_IL + 27⟩ ∈ farBranchNodes := by decide +kernel
  have chosen : long (m_IL + 1) = true := by
    by_contra kept
    have same : withLong Ecma335.platform long farBranchNodes = farBranchNodes := by
      refine (List.map_congr_left fun node member => if_neg fun both => kept ?_).trans (List.map_id _)
      rw [farBranch_branches node member both.1] at both
      exact both.2
    exact farBranch_far (same ▸ reaches)
  rw [held.listing_eq]
  exact ⟨_, List.mem_map_of_mem listed, by rw [if_pos ⟨by decide, chosen⟩]; decide⟩

end Witness

end ClrProfiling
