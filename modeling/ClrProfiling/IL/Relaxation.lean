import ClrProfiling.IL.Patching

/-! The `again` loop of Export: the list it ends with, the bytes of that list, and that
it ends. -/

namespace ClrProfiling

open LinkedRing Word

theorem encodeFrom_congr {platform : Platform} {nodes : List Instr} {starts starts' : Ptr → Nat}
    (same : ∀ node ∈ nodes, node.isBranch platform → starts node.operand = starts' node.operand)
    (switchBase place : Nat) :
    encodeFrom platform starts switchBase place nodes = encodeFrom platform starts' switchBase place nodes := by
  induction nodes generalizing switchBase place with
  | nil => rfl
  | cons node rest ih =>
    obtain ⟨here, same⟩ := List.forall_mem_cons.mp same
    have slot : slotBytes platform starts switchBase place node = slotBytes platform starts' switchBase place node := by
      by_cases branch : node.isBranch platform
      · rw [slotBytes, slotBytes, here branch]
      · have width : slotWidth platform node = 0 := if_neg branch
        rw [List.eq_nil_of_length_eq_zero ((length_slotBytes ..).trans width),
          List.eq_nil_of_length_eq_zero ((length_slotBytes ..).trans width)]
    rw [encodeFrom, encodeFrom, ih same, slot]

theorem forall₂_widened_trans {platform : Platform} {nodes nodes' nodes'' : List Instr}
    (first : List.Forall₂ (Widened platform) nodes nodes') (second : List.Forall₂ (Widened platform) nodes' nodes'') :
    List.Forall₂ (Widened platform) nodes nodes'' := by
  induction first generalizing nodes'' with
  | nil => exact second
  | cons here _ ih =>
    cases second with
    | cons here' later => exact .cons (here.trans here') (ih later)

private theorem fixed_content {platform : Platform} {nodes : List Instr} {buffer : Buffer} {starts : Ptr → Nat}
    (plain : ∀ node ∈ nodes, ¬node.isBranch platform)
    (contents : EveryAt platform (fun place node =>
      buffer.read place (fixedBytes platform node).length = fixedBytes platform node) place nodes)
    (switchBase : Nat) :
    buffer.read place (totalSize platform nodes) = encodeFrom platform starts switchBase place nodes := by
  induction nodes generalizing switchBase place with
  | nil => rfl
  | cons node rest ih =>
    obtain ⟨here, plain⟩ := List.forall_mem_cons.mp plain
    have noSlot : slotWidth platform node = 0 := if_neg here
    have widths := length_fixedBytes platform node
    rw [noSlot, Nat.add_zero] at widths
    rw [totalSize_cons, Buffer.read_append, encodeFrom, ih plain contents.2 (baseBehind switchBase place node),
      ← widths, contents.1, List.eq_nil_of_length_eq_zero ((length_slotBytes ..).trans noSlot), List.append_nil]

namespace ILRewriter

variable {platform : Platform}

private theorem EmitInstr_links (loop : Emission) (p : Ptr) (loop' : Emission)
    (run : EmitInstr platform loop p = .ok loop') : loop'.rewriter.links = loop.rewriter.links := by
  obtain ⟨⟨buffer, offset⟩, -, rest⟩ := Outcome.bind_eq_ok_iff.mp run
  obtain ⟨⟨buffer, offset, fBranch⟩, -, rest⟩ := Outcome.bind_eq_ok_iff.mp rest
  cases rest
  rfl

private theorem PatchInstr_links (loop : Patching) (p : Ptr) (loop' : Patching)
    (run : PatchInstr platform loop p = .ok loop') : loop'.rewriter.links = loop.rewriter.links := by
  unfold PatchInstr at run
  dsimp only at run
  split at run
  · cases run
    rfl
  · split at run
    · obtain ⟨target, -, rest⟩ := Outcome.bind_eq_ok_iff.mp run
      obtain ⟨buffer, -, rest⟩ := Outcome.bind_eq_ok_iff.mp rest
      cases rest
      rfl
    · split at run
      · obtain ⟨target, -, rest⟩ := Outcome.bind_eq_ok_iff.mp run
        split at rest
        · split at rest
          · obtain ⟨slot, -, rest⟩ := Outcome.bind_eq_ok_iff.mp rest
            obtain ⟨buffer, -, rest⟩ := Outcome.bind_eq_ok_iff.mp rest
            cases rest
            rfl
          · cases rest
            rfl
        · obtain ⟨slot, -, rest⟩ := Outcome.bind_eq_ok_iff.mp rest
          obtain ⟨buffer, -, rest⟩ := Outcome.bind_eq_ok_iff.mp rest
          cases rest
          rfl
        · cases rest
          rfl
      · cases run
        rfl

/-- The first pass over a whole list. -/
structure EmittedPass (platform : Platform) (nodes : List Instr) (s : ILRewriter) (buffer : Buffer)
    (pass : Emission) : Prop where
  holds : pass.rewriter.Holds nodes
  rewriter : pass.rewriter = { s with m_offset := pass.rewriter.m_offset }
  placed : Placed platform pass.rewriter 0 nodes
  starts : ∀ p ∈ m_IL :: nodes.map Instr.ptr, pass.rewriter.m_offset p = wrap32 (startOf platform nodes p)
  offset : pass.offset = wrap32 (totalSize platform nodes)
  size : pass.buffer.size = buffer.size
  branch : pass.fBranch = nodes.any fun node => node.isBranch platform
  fits : EveryAt platform (fun place node => fixedBytes platform node ≠ [] →
    wrap32 place + (fixedBytes platform node).length ≤ buffer.size) 0 nodes

private theorem EmitPass_fold {s : ILRewriter} (holds : s.Holds nodes) (buffer : Buffer) :
    s.EmitPass platform buffer =
      ((nodes.map Instr.ptr).foldlM (EmitInstr platform)
        { rewriter := s, buffer, offset := 0, fBranch := false }).map fun pass =>
          { pass with rewriter := pass.rewriter.setOffset m_IL pass.offset } := by
  rw [EmitPass, Holds.forInstrs_eq_foldlM Emission.rewriter { rewriter := s, buffer, offset := 0, fBranch := false }
    holds EmitInstr_links]
  cases (nodes.map Instr.ptr).foldlM (EmitInstr platform)
    { rewriter := s, buffer, offset := 0, fBranch := false } <;> rfl

theorem EmitPass_eq_ok {s : ILRewriter} {buffer : Buffer} {pass : Emission} (holds : s.Holds nodes)
    (narrow : buffer.size < 2 ^ 32)
    (run : s.EmitPass platform buffer = .ok pass) : EmittedPass platform nodes s buffer pass := by
  rw [EmitPass_fold holds] at run
  cases fold : (nodes.map Instr.ptr).foldlM (EmitInstr platform)
      { rewriter := s, buffer, offset := 0, fBranch := false } with
  | error failure => simp [fold, Except.map] at run
  | ok loop =>
    rw [fold] at run
    cases run
    have emitted := emit_all fold holds.fields holds.ptrs_nodup (show (0 : Nat) = wrap32 0 from rfl) narrow
    have rewriter := emitted.rewriter
    have offset := emitted.offset
    rw [Nat.zero_add] at offset
    have starts : ∀ p ∈ m_IL :: nodes.map Instr.ptr,
        (loop.rewriter.setOffset m_IL loop.offset).m_offset p = wrap32 (startOf platform nodes p) := by
      intro p member
      by_cases hub : p = m_IL
      · subst hub
        have self : (loop.rewriter.setOffset m_IL loop.offset).m_offset m_IL = loop.offset := by simp [setOffset]
        rw [self, offset, startOf_absent holds.ring.hub_notMem]
      · have listed : p ∈ nodes.map Instr.ptr := (List.mem_cons.mp member).resolve_left hub
        have place := emitted.offsets p
        rw [if_pos listed, Nat.zero_add] at place
        exact (Function.update_of_ne hub _ _).trans place
    have held : (loop.rewriter.setOffset m_IL loop.offset).Holds nodes := by
      rw [rewriter]
      exact ⟨holds.ring, holds.opcode, holds.operand, holds.allocated, holds.hub_lt, holds.count⟩
    refine ⟨held, ?_, ?_, starts, offset, emitted.size, by simpa using emitted.branch, emitted.fits⟩
    · dsimp only
      rw [rewriter]
      rfl
    · refine everyAt_iff.mpr fun before node after split => ?_
      have nodup := held.ring.nodup
      rw [Nat.zero_add]
      subst split
      have start := startOf_cut platform nodup
      have split : before ++ node :: after = (before ++ [node]) ++ after := by simp
      have behind := startOf_cut platform (show (m_IL :: _).Nodup from split ▸ nodup)
      rw [← split, totalSize_append, totalSize_cons, totalSize_nil, Nat.add_zero] at behind
      refine ⟨?_, ?_⟩
      · rw [starts _ (by simp)]
        exact congrArg wrap32 start
      · have member : rightOf m_IL (after.map Instr.ptr) ∈ m_IL :: (before ++ node :: after).map Instr.ptr := by
          rw [split, List.map_append]
          exact rightOf_mem ..
        rw [held.next_eq, starts _ member, behind]

theorem EmitPass_content {s : ILRewriter} {buffer : Buffer} {pass : Emission} (holds : s.Holds nodes)
    (narrow : buffer.size < 2 ^ 32) (room : totalSize platform nodes ≤ buffer.size)
    (run : s.EmitPass platform buffer = .ok pass) :
    EveryAt platform (fun place node =>
      pass.buffer.read place (fixedBytes platform node).length = fixedBytes platform node) 0 nodes := by
  rw [EmitPass_fold holds] at run
  cases fold : (nodes.map Instr.ptr).foldlM (EmitInstr platform)
      { rewriter := s, buffer, offset := 0, fBranch := false } with
  | error failure => simp [fold, Except.map] at run
  | ok loop =>
    rw [fold] at run
    cases run
    exact (emit_content fold holds.fields rfl narrow (by simpa using room)).1

theorem EmitPass_succeeds {s : ILRewriter} {buffer : Buffer} (holds : s.Holds nodes) (narrow : buffer.size < 2 ^ 32)
    (room : totalSize platform nodes ≤ buffer.size) : ∃ pass, s.EmitPass platform buffer = .ok pass := by
  have fields : (Emission.mk s buffer 0 false).rewriter.Fields nodes := holds.fields
  obtain ⟨loop, fold⟩ : ∃ loop, (nodes.map Instr.ptr).foldlM (EmitInstr platform) ⟨s, buffer, 0, false⟩ = .ok loop :=
    emit_succeeds fields rfl narrow (by simpa using room)
  rw [EmitPass_fold holds, fold]
  exact ⟨_, rfl⟩

theorem PatchPass_fold {pass : Emission} (holds : pass.rewriter.Holds nodes) :
    PatchPass platform pass = (nodes.map Instr.ptr).foldlM (PatchInstr platform)
      { rewriter := pass.rewriter, buffer := pass.buffer, switchBase := 0, fTryAgain := false } :=
  Holds.forInstrs_eq_foldlM Patching.rewriter
    { rewriter := pass.rewriter, buffer := pass.buffer, switchBase := 0, fTryAgain := false } holds PatchInstr_links

/-- What the last pass leaves behind: a list with its offsets and its bytes, and every
short branch in reach of its target. -/
structure Laid (platform : Platform) (nodes : List Instr) (s : ILRewriter) (room : Nat) (s' : ILRewriter)
    (code : List UInt8) : Prop where
  holds : s'.Holds nodes
  rewriter : s' = { s with m_opcode := s'.m_opcode, m_offset := s'.m_offset }
  fits : totalSize platform nodes ≤ room
  starts : ∀ p ∈ m_IL :: nodes.map Instr.ptr, s'.m_offset p = startOf platform nodes p
  code : code = encodeFrom platform (startOf platform nodes) 0 0 nodes
  near : EveryAt platform (fun place node => ¬FarShort platform (startOf platform nodes) place node) 0 nodes

/-- Every branch of a list leads to one of its nodes or to the sentinel. -/
def Closed (platform : Platform) (nodes : List Instr) : Prop :=
  ∀ node ∈ nodes, node.isBranch platform → node.operand ∈ m_IL :: nodes.map Instr.ptr

theorem Closed.deref {s : ILRewriter} (closed : Closed platform nodes) (holds : s.Holds nodes) :
    ∀ node ∈ nodes, node.isBranch platform → s.deref node.operand = .ok node.operand := by
  intro node member branch
  rcases List.mem_cons.mp (closed node member branch) with hub | listed
  · rw [hub]
    exact holds.deref_hub
  · obtain ⟨target, listed, same⟩ := List.mem_map.mp listed
    rw [← same]
    exact holds.deref listed

theorem Closed.widened (closed : Closed platform nodes) (widening : List.Forall₂ (Widened platform) nodes nodes') :
    Closed platform nodes' := by
  intro node' member branch
  obtain ⟨node, listed, same⟩ := widened_source widening member
  rw [widened_ptrs widening, same.2.1]
  exact closed node listed (same.isBranch_iff.mp branch)

private theorem far_congr {starts starts' : Ptr → Nat} {node : Instr}
    (same : starts node.operand = starts' node.operand) :
    FarShort platform starts place node ↔ FarShort platform starts' place node := by
  rw [FarShort, FarShort, same]

private theorem EmittedPass.exact {s : ILRewriter} {buffer : Buffer} {pass : Emission}
    (emitted : EmittedPass platform nodes s buffer pass) (narrow : buffer.size < 2 ^ 32)
    (fits : totalSize platform nodes ≤ buffer.size) :
    ∀ p ∈ m_IL :: nodes.map Instr.ptr, pass.rewriter.m_offset p = startOf platform nodes p := by
  intro p member
  have bound : startOf platform nodes p ≤ totalSize platform nodes := startOf_le nodes p
  rw [emitted.starts p member, wrap32_of_lt (by omega)]

/-- A list without branches is done with the first pass. -/
private theorem laid_of_emitted {s : ILRewriter} {buffer : Buffer} {pass : Emission} (holds : s.Holds nodes)
    (narrow : buffer.size < 2 ^ 32) (run : s.EmitPass platform buffer = .ok pass) (plain : pass.fBranch = false) :
    Laid platform nodes s buffer.size pass.rewriter (pass.buffer.read 0 pass.offset) ∧
      pass.offset = totalSize platform nodes := by
  have emitted := EmitPass_eq_ok holds narrow run
  have plain : ∀ node ∈ nodes, ¬node.isBranch platform := by
    have none := emitted.branch
    rw [plain] at none
    simpa using none.symm
  have fits : totalSize platform nodes ≤ buffer.size := by
    have room := roomy_of_passes narrow (Nat.zero_le _) emitted.fits
      (everyAt_iff.mpr fun _ node _ split branch => absurd branch (plain node (by rw [split]; simp)))
    rwa [Nat.zero_add] at room
  have offset : pass.offset = totalSize platform nodes := by rw [emitted.offset, wrap32_of_lt (by omega)]
  refine ⟨⟨emitted.holds, ?_, fits, emitted.exact narrow fits, ?_, ?_⟩, offset⟩
  · have same := emitted.rewriter
    rw [same]
  · rw [offset]
    exact fixed_content plain (EmitPass_content holds narrow fits run) 0
  · refine everyAt_iff.mpr fun before node after split far => plain node (by rw [split]; simp) ?_
    simp [Instr.isBranch, far.1, OPCODEFLAGS_BranchTarget]

/-- A list whose short branches all reach their targets is done with the second pass. -/
private theorem laid_of_patched {s : ILRewriter} {buffer : Buffer} {pass : Emission} {patched : Patching}
    (holds : s.Holds nodes) (closed : Closed platform nodes) (narrow : buffer.size < 2 ^ 32)
    (run : s.EmitPass platform buffer = .ok pass) (patch : PatchPass platform pass = .ok patched)
    (settled : patched.fTryAgain = false) :
    Laid platform nodes s buffer.size patched.rewriter (patched.buffer.read 0 pass.offset) ∧
      pass.offset = totalSize platform nodes := by
  have emitted := EmitPass_eq_ok holds narrow run
  have size := emitted.size
  have fold := patch
  rw [PatchPass_fold emitted.holds] at fold
  have held : pass.rewriter.Holds ([] ++ nodes) := emitted.holds
  obtain ⟨same, slots⟩ := patch_settled fold held emitted.placed settled
  dsimp only at same slots
  rw [size] at slots
  have fits : totalSize platform nodes ≤ buffer.size := by
    have room := roomy_of_passes narrow (Nat.zero_le _) emitted.fits
      (slots.imp fun place node _ reach branch => (reach branch).2)
    rwa [Nat.zero_add] at room
  have offset : pass.offset = totalSize platform nodes := by rw [emitted.offset, wrap32_of_lt (by omega)]
  have starts := emitted.exact narrow fits
  refine ⟨⟨?_, ?_, fits, ?_, ?_, ?_⟩, offset⟩
  · rw [same]
    exact emitted.holds
  · rw [same]
    have kept := emitted.rewriter
    rw [kept]
  · rw [same]
    exact starts
  · have content := (patch_content fold held emitted.placed settled (size.trans_lt narrow)
      (by rw [Nat.zero_add]; exact fits.trans (Nat.le_of_eq size.symm)) (EmitPass_content holds narrow fits run)).1
    rw [offset, content]
    exact encodeFrom_congr (fun node member branch => starts _ (closed node member branch)) 0 0
  · refine slots.imp fun place node member reach far => ?_
    have branch : node.isBranch platform := by simp [Instr.isBranch, far.1, OPCODEFLAGS_BranchTarget]
    exact (reach branch).1 ((far_congr (starts _ (closed node member branch))).mpr far)

/-- The `again` loop ends with the list it started from, some of its short branches widened. -/
theorem Again_eq_ok {s : ILRewriter} {buffer : Buffer} (holds : s.Holds nodes) (closed : Closed platform nodes)
    (narrow : buffer.size < 2 ^ 32)
    (run : Again platform fuel s buffer passes = .ok (s', buffer', offset, passes')) :
    ∃ nodes', List.Forall₂ (Widened platform) nodes nodes' ∧
      Laid platform nodes' s buffer.size s' (buffer'.read 0 offset) ∧ offset = totalSize platform nodes' := by
  induction fuel generalizing s nodes buffer passes with
  | zero => cases run
  | succ fuel ih =>
    rw [Again] at run
    obtain ⟨pass, emit, rest⟩ := Outcome.bind_eq_ok_iff.mp run
    have emitted := EmitPass_eq_ok holds narrow emit
    cases branch : pass.fBranch with
    | false =>
      rw [branch, if_neg (by decide)] at rest
      cases rest
      exact ⟨nodes, forall₂_widened_refl nodes, laid_of_emitted holds narrow emit branch⟩
    | true =>
      rw [branch, if_pos rfl] at rest
      obtain ⟨patched, patch, rest⟩ := Outcome.bind_eq_ok_iff.mp rest
      cases again : patched.fTryAgain with
      | false =>
        rw [again, if_neg (by decide)] at rest
        cases rest
        exact ⟨nodes, forall₂_widened_refl nodes, laid_of_patched holds closed narrow emit patch again⟩
      | true =>
        rw [again, if_pos rfl] at rest
        have fold := patch
        rw [PatchPass_fold emitted.holds] at fold
        obtain ⟨nodes', widening, held, kept, size, -, -, -⟩ :=
          patch_all fold (show pass.rewriter.Holds ([] ++ nodes) from emitted.holds) emitted.placed
        dsimp only at kept size
        have sizes := size.trans emitted.size
        obtain ⟨nodes'', widening', laid, total⟩ := ih held (closed.widened widening) (sizes.trans_lt narrow) rest
        refine ⟨nodes'', forall₂_widened_trans widening widening',
          ⟨laid.holds, ?_, ?_, laid.starts, laid.code, laid.near⟩, total⟩
        · have same := laid.rewriter
          rw [kept, emitted.rewriter] at same
          exact same
        · rw [← sizes]
          exact laid.fits

/-- A list that fits, with every short branch in reach, takes one pass. -/
theorem Again_once {s : ILRewriter} {buffer : Buffer} (holds : s.Holds nodes) (closed : Closed platform nodes)
    (narrow : buffer.size < 2 ^ 32) (fits : totalSize platform nodes ≤ buffer.size)
    (near : EveryAt platform (fun place node => ¬FarShort platform (startOf platform nodes) place node) 0 nodes)
    (fuel passes : Nat) :
    ∃ s' buffer', Again platform (fuel + 1) s buffer passes = .ok (s', buffer', totalSize platform nodes, passes + 1) ∧
      Laid platform nodes s buffer.size s' (buffer'.read 0 (totalSize platform nodes)) := by
  obtain ⟨pass, emit⟩ := EmitPass_succeeds holds narrow fits
  have emitted := EmitPass_eq_ok holds narrow emit
  rw [Again, emit, Outcome.ok_bind]
  cases branch : pass.fBranch with
  | false =>
    obtain ⟨laid, total⟩ := laid_of_emitted holds narrow emit branch
    rw [total] at laid
    exact ⟨_, _, by rw [if_neg (by decide), total]; rfl, laid⟩
  | true =>
    have starts := emitted.exact narrow fits
    have held : pass.rewriter.Holds ([] ++ nodes) := emitted.holds
    obtain ⟨patched, fold⟩ : ∃ patched, (nodes.map Instr.ptr).foldlM (PatchInstr platform)
        ⟨pass.rewriter, pass.buffer, 0, false⟩ = .ok patched :=
      patch_succeeds (show (Patching.mk pass.rewriter pass.buffer 0 false).rewriter.Holds ([] ++ nodes) from held)
        emitted.placed (emitted.size.trans_lt narrow)
        (by rw [Nat.zero_add]; exact fits.trans (Nat.le_of_eq emitted.size.symm)) (closed.deref emitted.holds)
    have settled := patch_near fold held.fields emitted.placed (near.imp fun place node member reach far => reach
      ((far_congr (starts _ (closed node member
        (by simp [Instr.isBranch, far.1, OPCODEFLAGS_BranchTarget])))).mp far))
    have patch : PatchPass platform pass = .ok patched := by rw [PatchPass_fold emitted.holds, fold]
    obtain ⟨laid, total⟩ := laid_of_patched holds closed narrow emit patch settled
    rw [total] at laid
    refine ⟨_, _, ?_, laid⟩
    rw [if_pos rfl, patch, Outcome.ok_bind, settled, if_neg Bool.false_ne_true, total]
    rfl

/-- With ten bytes for every node the `again` loop ends: each further pass has one short
branch less to work with. -/
theorem Again_succeeds {s : ILRewriter} {buffer : Buffer} (holds : s.Holds nodes) (closed : Closed platform nodes)
    (narrow : buffer.size < 2 ^ 32) (room : 10 * nodes.length ≤ buffer.size)
    (enough : shortCount platform nodes < fuel) :
    ∃ result, Again platform fuel s buffer passes = .ok result := by
  induction fuel generalizing s nodes buffer passes with
  | zero => simp at enough
  | succ fuel ih =>
    have fits : totalSize platform nodes ≤ buffer.size := (totalSize_le nodes).trans room
    obtain ⟨pass, emit⟩ := EmitPass_succeeds holds narrow fits
    have emitted := EmitPass_eq_ok holds narrow emit
    rw [Again, emit, Outcome.ok_bind]
    cases branch : pass.fBranch with
    | false => exact ⟨_, rfl⟩
    | true =>
      have held : pass.rewriter.Holds ([] ++ nodes) := emitted.holds
      obtain ⟨patched, fold⟩ : ∃ patched, (nodes.map Instr.ptr).foldlM (PatchInstr platform)
          ⟨pass.rewriter, pass.buffer, 0, false⟩ = .ok patched :=
        patch_succeeds (show (Patching.mk pass.rewriter pass.buffer 0 false).rewriter.Holds ([] ++ nodes) from held)
          emitted.placed (emitted.size.trans_lt narrow)
          (by rw [Nat.zero_add]; exact fits.trans (Nat.le_of_eq emitted.size.symm)) (closed.deref emitted.holds)
      have patch : PatchPass platform pass = .ok patched := by rw [PatchPass_fold emitted.holds, fold]
      rw [if_pos rfl, patch, Outcome.ok_bind]
      cases again : patched.fTryAgain with
      | false => exact ⟨_, rfl⟩
      | true =>
        obtain ⟨nodes', widening, held', -, size, -, asked, -⟩ := patch_all fold held emitted.placed
        have fewer : shortCount platform nodes' < shortCount platform nodes := by
          rw [again] at asked
          simpa using asked.symm
        have sizes := size.trans emitted.size
        have held' : patched.rewriter.Holds nodes' := held'
        rw [if_pos rfl]
        refine ih held' (closed.widened widening) (sizes.trans_lt narrow) ?_ (by omega)
        rw [← widening.length_eq]
        exact room.trans (Nat.le_of_eq sizes.symm)

/-- The `again` loop reaches the targets of all branches. -/
theorem Again_targets {s : ILRewriter} {buffer : Buffer} (holds : s.Holds nodes) (narrow : buffer.size < 2 ^ 32)
    (run : Again platform fuel s buffer passes = .ok result) :
    ∀ node ∈ nodes, node.isBranch platform → s.deref node.operand = .ok node.operand := by
  cases fuel with
  | zero => cases run
  | succ fuel =>
    obtain ⟨pass, emit, rest⟩ := Outcome.bind_eq_ok_iff.mp run
    have emitted := EmitPass_eq_ok holds narrow emit
    cases branch : pass.fBranch with
    | false =>
      have none := emitted.branch
      rw [branch] at none
      intro node member isBranch
      have plain : ∀ node ∈ nodes, ¬node.isBranch platform := by simpa using none.symm
      exact absurd isBranch (plain node member)
    | true =>
      rw [branch, if_pos rfl] at rest
      obtain ⟨patched, patch, -⟩ := Outcome.bind_eq_ok_iff.mp rest
      rw [PatchPass_fold emitted.holds] at patch
      obtain ⟨_, _, _, _, _, _, _, targets⟩ :=
        patch_all patch (show pass.rewriter.Holds ([] ++ nodes) from emitted.holds) emitted.placed
      dsimp only at targets
      rw [emitted.rewriter] at targets
      exact targets

/-- A turn of the second pass fails at a pointer or at the end of the buffer. -/
private theorem PatchInstr_refuses {loop : Patching} {failure : Failure}
    (run : PatchInstr platform loop p = .error failure) : failure = .invalidPointer ∨ failure = .outOfBounds := by
  have slots {next width : Nat} (failed : slotBefore next width = .error failure) : failure = .outOfBounds := by
    unfold slotBefore at failed
    split at failed <;> cases failed
    rfl
  rw [PatchInstr] at run
  dsimp only at run
  split at run
  · cases run
  split at run
  · rcases Outcome.bind_eq_error_iff.mp run with stray | ⟨target, -, run⟩
    · exact .inl (deref_eq_error stray)
    rcases Outcome.bind_eq_error_iff.mp run with outside | ⟨buffer, -, run⟩
    · exact .inr (store_refuses outside)
    · cases run
  split at run
  · rcases Outcome.bind_eq_error_iff.mp run with stray | ⟨target, -, run⟩
    · exact .inl (deref_eq_error stray)
    split at run
    · split at run
      · rcases Outcome.bind_eq_error_iff.mp run with outside | ⟨slot, -, run⟩
        · exact .inr (slots outside)
        rcases Outcome.bind_eq_error_iff.mp run with outside | ⟨buffer, -, run⟩
        · exact .inr (store_refuses outside)
        · cases run
      · cases run
    · rcases Outcome.bind_eq_error_iff.mp run with outside | ⟨slot, -, run⟩
      · exact .inr (slots outside)
      rcases Outcome.bind_eq_error_iff.mp run with outside | ⟨buffer, -, run⟩
      · exact .inr (store_refuses outside)
      · cases run
    · cases run
  · cases run

/-- The `again` loop comes to its end, or fails at a pointer or at the end of the buffer: a pass that asks
for another one has widened a branch. -/
theorem Again_stops {s : ILRewriter} {buffer : Buffer} {failure : Failure} (holds : s.Holds nodes)
    (narrow : buffer.size < 2 ^ 32) (enough : shortCount platform nodes < fuel)
    (run : Again platform fuel s buffer passes = .error failure) :
    failure = .invalidPointer ∨ failure = .outOfBounds := by
  induction fuel generalizing s nodes buffer passes with
  | zero => exact absurd enough (Nat.not_lt_zero _)
  | succ fuel ih =>
    rw [Again] at run
    rcases Outcome.bind_eq_error_iff.mp run with failed | ⟨pass, emit, rest⟩
    · rw [EmitPass_fold holds] at failed
      cases fold : (nodes.map Instr.ptr).foldlM (EmitInstr platform)
          { rewriter := s, buffer, offset := 0, fBranch := false } with
      | error failure =>
        rw [fold] at failed
        cases failed
        have fields : (Emission.mk s buffer 0 false).rewriter.Fields nodes := holds.fields
        exact .inr (emit_refuses fold fields (Nat.two_pow_pos 32) narrow)
      | ok loop => simp [fold, Except.map] at failed
    · have emitted := EmitPass_eq_ok holds narrow emit
      have held : pass.rewriter.Holds ([] ++ nodes) := emitted.holds
      split at rest
      · rcases Outcome.bind_eq_error_iff.mp rest with failed | ⟨patched, patch, rest⟩
        · rw [PatchPass_fold emitted.holds] at failed
          obtain ⟨_, _, turn⟩ := Outcome.foldlM_eq_error failed
          exact PatchInstr_refuses turn
        · rw [PatchPass_fold emitted.holds] at patch
          split at rest
          · rename_i again
            obtain ⟨nodes', widening, held', -, size, -, asked, -⟩ := patch_all patch held emitted.placed
            have held' : patched.rewriter.Holds nodes' := held'
            have fewer : shortCount platform nodes' < shortCount platform nodes := by
              rw [again] at asked
              simpa using asked.symm
            exact ih held' ((size.trans emitted.size).trans_lt narrow) (by omega) rest
          · cases rest
      · cases rest

/-- On a closed list the `again` loop never looks behind a null pointer. -/
theorem Again_refuses {s : ILRewriter} {buffer : Buffer} {failure : Failure} (holds : s.Holds nodes)
    (closed : Closed platform nodes) (narrow : buffer.size < 2 ^ 32)
    (run : Again platform fuel s buffer passes = .error failure) : failure = .outOfBounds ∨ failure = .outOfFuel := by
  induction fuel generalizing s nodes buffer passes with
  | zero =>
    cases run
    exact .inr rfl
  | succ fuel ih =>
    rw [Again] at run
    rcases Outcome.bind_eq_error_iff.mp run with failed | ⟨pass, emit, rest⟩
    · rw [EmitPass_fold holds] at failed
      cases fold : (nodes.map Instr.ptr).foldlM (EmitInstr platform)
          { rewriter := s, buffer, offset := 0, fBranch := false } with
      | error failure =>
        rw [fold] at failed
        cases failed
        have fields : (Emission.mk s buffer 0 false).rewriter.Fields nodes := holds.fields
        exact .inl (emit_refuses fold fields (Nat.two_pow_pos 32) narrow)
      | ok loop => simp [fold, Except.map] at failed
    · have emitted := EmitPass_eq_ok holds narrow emit
      have held : pass.rewriter.Holds ([] ++ nodes) := emitted.holds
      split at rest
      · rcases Outcome.bind_eq_error_iff.mp rest with failed | ⟨patched, patch, rest⟩
        · rw [PatchPass_fold emitted.holds] at failed
          exact .inl (patch_refuses failed held emitted.placed (closed.deref emitted.holds))
        · rw [PatchPass_fold emitted.holds] at patch
          split at rest
          · obtain ⟨nodes', widening, held', -, size, -, -, -⟩ := patch_all patch held emitted.placed
            have held' : patched.rewriter.Holds nodes' := held'
            exact ih held' (closed.widened widening) ((size.trans emitted.size).trans_lt narrow) rest
          · cases rest
      · cases rest

end ILRewriter

end ClrProfiling
