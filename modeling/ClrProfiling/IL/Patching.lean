import ClrProfiling.IL.Emission

/-! The second pass of Export: displacements are written behind the opcodes, and short
branches that do not reach their target are widened. -/

namespace ClrProfiling

open LinkedRing Word

section Slots

variable (platform : Platform)

/-- Where the displacement of a node goes; it ends where the next node starts. -/
def slotAt (node : Instr) (start next : Nat) : Except Failure Nat :=
  if node.opcode = platform.CEE_SWITCH_ARG then .ok start
  else ILRewriter.slotBefore next (operandWidth platform node.opcode)

/-- A short branch at `place` that does not reach its target. -/
def FarShort (starts : Ptr → Nat) (place : Nat) (node : Instr) : Prop :=
  platform.s_OpCodeFlags node.opcode = 0x11 ∧
    fitsInt8 (sub32 (starts node.operand) (place + nodeSize platform node.opcode)) = false

instance (starts : Ptr → Nat) (place : Nat) (node : Instr) : Decidable (FarShort platform starts place node) :=
  inferInstanceAs (Decidable (_ ∧ _))

end Slots

namespace ILRewriter

variable {platform : Platform}

/-- One turn of the second pass. -/
theorem PatchInstr_eq {loop : Patching} {node : Instr} (opcode : loop.rewriter.m_opcode node.ptr = node.opcode)
    (operand : loop.rewriter.m_operand node.ptr = node.operand)
    (here : loop.rewriter.m_offset node.ptr = wrap32 place)
    (next : loop.rewriter.m_offset (loop.rewriter.m_pNext node.ptr) =
      wrap32 (place + nodeSize platform node.opcode)) :
    PatchInstr platform loop node.ptr =
      if node.isBranch platform then do
        let _ ← loop.rewriter.deref node.operand
        if FarShort platform loop.rewriter.m_offset place node then
          .ok { loop with
            rewriter := loop.rewriter.setOpcode node.ptr (widened node.opcode)
            fTryAgain := true }
        else do
          let slot ← slotAt platform node (wrap32 place) (wrap32 (place + nodeSize platform node.opcode))
          let buffer ← store loop.buffer slot
            (slotBytes platform loop.rewriter.m_offset loop.switchBase place node)
          .ok { loop with buffer }
      else .ok { loop with switchBase := baseBehind loop.switchBase place node } := by
  unfold PatchInstr
  simp only [opcode, m_pTarget, operand, here, next, m_Arg32]
  by_cases isSwitch : node.opcode = CEE_SWITCH
  · rw [if_pos isSwitch, if_neg (Instr.not_isBranch_of_switch isSwitch), baseBehind, if_pos isSwitch, Outcome.pure_eq,
      Nat.add_assoc,
      wrap32_add_left, ← Nat.add_assoc]
  · rw [if_neg isSwitch]
    by_cases internal : node.opcode = platform.CEE_SWITCH_ARG
    · have flags : platform.s_OpCodeFlags node.opcode = 0x14 := by rw [internal, platform.flags_switchArg]
      have branch : node.isBranch platform := .of_switchArg internal
      have near (starts : Ptr → Nat) : ¬FarShort platform starts place node := by simp [FarShort, flags]
      rw [if_pos internal, if_pos branch]
      cases found : loop.rewriter.deref node.operand with
      | error failure => rfl
      | ok target =>
        obtain rfl := deref_eq_ok found
        simp only [Outcome.ok_bind, if_neg (near _), slotAt, slotBytes, if_pos internal]
        rfl
    · rw [if_neg internal]
      by_cases branch : node.isBranch platform
      · rw [if_pos branch, if_pos (show platform.s_OpCodeFlags node.opcode &&& OPCODEFLAGS_BranchTarget ≠ 0 from branch)]
        cases found : loop.rewriter.deref node.operand with
        | error failure => rfl
        | ok target =>
          obtain rfl := deref_eq_ok found
          have kinds := platform.flags_cases node.opcode
          simp only [List.mem_cons, List.not_mem_nil, or_false] at kinds
          simp only [Outcome.ok_bind, sub32_wrap32_right, slotAt, slotBytes, if_neg internal]
          rcases kinds with flags | flags | flags | flags | flags | flags | flags | flags
          case inr.inr.inr.inr.inr.inl =>
            simp only [flags, FarShort, operandWidth, OPCODEFLAGS_SizeMask, true_and]
            cases fits : fitsInt8 (sub32 (loop.rewriter.m_offset node.operand)
              (place + nodeSize platform node.opcode)) <;>
              simp [Outcome.pure_eq]
          case inr.inr.inr.inr.inr.inr.inl =>
            simp only [flags, FarShort, operandWidth, OPCODEFLAGS_SizeMask]
            simp [Outcome.pure_eq]
          all_goals simp [Instr.isBranch, flags, OPCODEFLAGS_BranchTarget] at branch
      · rw [if_neg branch,
          if_neg (show ¬platform.s_OpCodeFlags node.opcode &&& OPCODEFLAGS_BranchTarget ≠ 0 from branch), baseBehind,
          if_neg isSwitch]
        rfl

/-- The offsets the second pass works with: those of the nodes from `place` on. -/
def Placed (platform : Platform) (s : ILRewriter) (place : Nat) (nodes : List Instr) : Prop :=
  EveryAt platform (fun place node => s.m_offset node.ptr = wrap32 place ∧
    s.m_offset (s.m_pNext node.ptr) = wrap32 (place + nodeSize platform node.opcode)) place nodes

/-- Everything a turn of the second pass can do. -/
theorem PatchInstr_cases {loop : Patching} {node : Instr} (fields : loop.rewriter.Fields (node :: rest))
    (placed : Placed platform loop.rewriter place (node :: rest))
    (run : PatchInstr platform loop node.ptr = .ok loop') :
    (¬node.isBranch platform ∧ loop' = { loop with switchBase := baseBehind loop.switchBase place node }) ∨
    (node.isBranch platform ∧ loop.rewriter.deref node.operand = .ok node.operand ∧
      FarShort platform loop.rewriter.m_offset place node ∧
      loop' = { loop with
        rewriter := loop.rewriter.setOpcode node.ptr (widened node.opcode)
        fTryAgain := true }) ∨
    (node.isBranch platform ∧ loop.rewriter.deref node.operand = .ok node.operand ∧
      ¬FarShort platform loop.rewriter.m_offset place node ∧ ∃ slot buffer,
        slotAt platform node (wrap32 place) (wrap32 (place + nodeSize platform node.opcode)) = .ok slot ∧
        Written loop.buffer slot (slotBytes platform loop.rewriter.m_offset loop.switchBase place node) buffer ∧
        loop' = { loop with buffer }) := by
  obtain ⟨opcode, operand⟩ := fields node (by simp)
  rw [PatchInstr_eq opcode operand placed.1.1 placed.1.2] at run
  by_cases branch : node.isBranch platform
  · rw [if_pos branch] at run
    obtain ⟨target, found, rest⟩ := Outcome.bind_eq_ok_iff.mp run
    obtain rfl := deref_eq_ok found
    by_cases far : FarShort platform loop.rewriter.m_offset place node
    · rw [if_pos far] at rest
      cases rest
      exact .inr (.inl ⟨branch, found, far, rfl⟩)
    · rw [if_neg far] at rest
      obtain ⟨slot, fits, rest⟩ := Outcome.bind_eq_ok_iff.mp rest
      obtain ⟨buffer, stored, rest⟩ := Outcome.bind_eq_ok_iff.mp rest
      cases rest
      exact .inr (.inr ⟨branch, found, far, slot, buffer, fits, store_eq_ok stored, rfl⟩)
  · rw [if_neg branch] at run
    cases run
    exact .inl ⟨branch, rfl⟩

end ILRewriter

section Widening

variable (platform : Platform)

/-- A node as it is, or a short branch turned into its long counterpart. -/
def Widened (node node' : Instr) : Prop :=
  node'.ptr = node.ptr ∧ node'.operand = node.operand ∧
    (node'.opcode = node.opcode ∨
      platform.s_OpCodeFlags node.opcode = 0x11 ∧ node'.opcode = ILRewriter.widened node.opcode)

/-- The number of short branches. -/
def shortCount (nodes : List Instr) : Nat :=
  nodes.countP fun node => platform.s_OpCodeFlags node.opcode == 0x11

variable {platform}

theorem short_range (short : platform.s_OpCodeFlags opcode = 0x11) :
    CEE_BR_S ≤ opcode ∧ opcode ≤ CEE_BLT_UN_S ∨ opcode = CEE_LEAVE_S := by
  by_cases below : opcode < platform.CEE_COUNT
  · exact (platform.flags_short below).mp short
  · rw [OpcodeDef.s_OpCodeFlags, if_neg below] at short
    split at short <;> simp [OPCODEFLAGS_BranchTarget] at short

/-- The long counterpart of a short branch takes a displacement of four bytes. -/
theorem flags_widened (short : platform.s_OpCodeFlags opcode = 0x11) :
    platform.s_OpCodeFlags (ILRewriter.widened opcode) = 0x14 := by
  have range := short_range short
  have page := platform.onePage
  have long : CEE_BR ≤ ILRewriter.widened opcode ∧ ILRewriter.widened opcode ≤ CEE_BLT_UN ∨
      ILRewriter.widened opcode = CEE_LEAVE := by
    unfold ILRewriter.widened
    simp only [CEE_BR_S, CEE_BLT_UN_S, CEE_LEAVE_S, CEE_BR, CEE_BLT_UN, CEE_LEAVE] at range ⊢
    split <;> omega
  have below : ILRewriter.widened opcode < platform.CEE_COUNT := by
    simp only [CEE_BR, CEE_BLT_UN, CEE_LEAVE] at long
    omega
  exact (platform.flags_long below).mpr long

theorem Widened.refl (node : Instr) : Widened platform node node := ⟨rfl, rfl, .inl rfl⟩

theorem forall₂_widened_refl (nodes : List Instr) : List.Forall₂ (Widened platform) nodes nodes :=
  List.forall₂_same.mpr fun node _ => .refl node

/-- Widening twice is widening once. -/
theorem Widened.trans (first : Widened platform node node') (second : Widened platform node' node'') :
    Widened platform node node'' := by
  refine ⟨second.1.trans first.1, second.2.1.trans first.2.1, ?_⟩
  rcases first.2.2 with same | ⟨short, long⟩
  · rcases second.2.2 with same' | ⟨short', long'⟩
    · exact .inl (same'.trans same)
    · exact .inr ⟨same ▸ short', same ▸ long'⟩
  · rcases second.2.2 with same' | ⟨short', long'⟩
    · exact .inr ⟨short, same'.trans long⟩
    · rw [long, flags_widened short] at short'
      exact absurd short' (by decide)

private theorem shortCount_lt_cons (node : Instr) (rest rest' : List Instr) :
    decide (shortCount platform (node :: rest') < shortCount platform (node :: rest)) =
      decide (shortCount platform rest' < shortCount platform rest) :=
  decide_eq_decide.mpr (by simp [shortCount, List.countP_cons])

theorem widened_ptrs (widening : List.Forall₂ (Widened platform) nodes nodes') :
    nodes'.map Instr.ptr = nodes.map Instr.ptr := by
  induction widening with
  | nil => rfl
  | cons first _ ih => rw [List.map_cons, List.map_cons, first.1, ih]

theorem widened_source (widening : List.Forall₂ (Widened platform) nodes nodes') (member : node' ∈ nodes') :
    ∃ node ∈ nodes, Widened platform node node' := by
  induction widening with
  | nil => simp at member
  | cons first _ ih =>
    rcases List.mem_cons.mp member with rfl | later
    · exact ⟨_, List.mem_cons_self .., first⟩
    · obtain ⟨node, listed, same⟩ := ih later
      exact ⟨node, List.mem_cons_of_mem _ listed, same⟩

theorem Widened.isBranch_iff (widening : Widened platform node node') :
    node'.isBranch platform ↔ node.isBranch platform := by
  rcases widening.2.2 with same | ⟨short, long⟩
  · rw [Instr.isBranch, same, Instr.isBranch]
  · simp [Instr.isBranch, short, long, flags_widened short, OPCODEFLAGS_BranchTarget]

end Widening

section Slots

variable {platform : Platform} {node : Instr}

theorem branch_flags (branch : node.isBranch platform) :
    platform.s_OpCodeFlags node.opcode = 0x11 ∨ platform.s_OpCodeFlags node.opcode = 0x14 := by
  have flags := platform.flags_cases node.opcode
  simp only [List.mem_cons, List.not_mem_nil, or_false] at flags
  rcases flags with flags | flags | flags | flags | flags | flags | flags | flags
  case inr.inr.inr.inr.inr.inl => exact .inl flags
  case inr.inr.inr.inr.inr.inr.inl => exact .inr flags
  all_goals simp [Instr.isBranch, flags, OPCODEFLAGS_BranchTarget] at branch

theorem operandWidth_branch (branch : node.isBranch platform) : ¬operandWidth platform node.opcode = 0 := by
  rcases branch_flags branch with flags | flags <;> simp [operandWidth, flags, OPCODEFLAGS_SizeMask]

theorem valueBytes_branch (branch : node.isBranch platform) : valueBytes platform node = [] := by
  rcases branch_flags branch with flags | flags <;> simp [valueBytes, flags]

theorem fixedBytes_switchArg (internal : node.opcode = platform.CEE_SWITCH_ARG) : fixedBytes platform node = [] := by
  rw [fixedBytes, valueBytes_branch (.of_switchArg internal), internal, headBytes_switchArg]
  rfl

/-- Only a `switch` moves the base. -/
theorem baseBehind_branch (switchBase place : Nat) (branch : node.isBranch platform) :
    baseBehind switchBase place node = switchBase := by
  rw [baseBehind, if_neg]
  intro isSwitch
  exact Instr.not_isBranch_of_switch isSwitch branch

end Slots

namespace ILRewriter

variable {platform : Platform}

theorem Holds.widen {s : ILRewriter} (holds : s.Holds (before ++ node :: after)) :
    (s.setOpcode node.ptr (widened node.opcode)).Holds
      ((before ++ [{ node with opcode := widened node.opcode }]) ++ after) :=
  (holds.setOpcode (widened node.opcode)).past

/-- The run of the second pass over a list: some short branches are widened, and the
next pass is asked for exactly if there are any. -/
theorem patch_all {rest : List Instr} {loop : Patching}
    (run : (rest.map Instr.ptr).foldlM (PatchInstr platform) loop = .ok loop')
    (holds : loop.rewriter.Holds (done ++ rest)) (placed : Placed platform loop.rewriter place rest) :
    ∃ rest', List.Forall₂ (Widened platform) rest rest' ∧ loop'.rewriter.Holds (done ++ rest') ∧
      loop'.rewriter = { loop.rewriter with m_opcode := loop'.rewriter.m_opcode } ∧
      loop'.buffer.size = loop.buffer.size ∧ shortCount platform rest' ≤ shortCount platform rest ∧
      loop'.fTryAgain = (loop.fTryAgain || decide (shortCount platform rest' < shortCount platform rest)) ∧
      ∀ node ∈ rest, node.isBranch platform → loop.rewriter.deref node.operand = .ok node.operand := by
  induction rest generalizing loop done place with
  | nil =>
    cases run
    exact ⟨[], .nil, holds, rfl, rfl, Nat.le_refl _, by simp, by simp⟩
  | cons node rest ih =>
    rw [List.map_cons, List.foldlM_cons] at run
    obtain ⟨middle, turn, later⟩ := Outcome.bind_eq_ok_iff.mp run
    have fields : loop.rewriter.Fields (node :: rest) :=
      fun other member => holds.fields other (List.mem_append_right _ member)
    rcases PatchInstr_cases fields placed turn with ⟨plain, rfl⟩ | ⟨branch, found, far, rfl⟩ |
      ⟨branch, found, near, slot, buffer, fits, written, rfl⟩
    · obtain ⟨rest', widening, held, same, size, fewer, again, targets⟩ :=
        ih later holds.past placed.2
      refine ⟨node :: rest', .cons (.refl node) widening, by simpa using held, same, size, ?_, ?_, ?_⟩
      · simpa [shortCount, List.countP_cons] using fewer
      · rw [again, shortCount_lt_cons]
      · simpa [plain] using targets
    · have held := holds.widen
      obtain ⟨rest', widening, held, same, size, fewer, again, targets⟩ :=
        ih later held placed.2
      have narrower : shortCount platform ({ node with opcode := widened node.opcode } :: rest') + 1 ≤
          shortCount platform (node :: rest) := by
        have wide := flags_widened far.1
        simpa [shortCount, List.countP_cons, far.1, wide] using fewer
      refine ⟨{ node with opcode := widened node.opcode } :: rest',
        .cons ⟨rfl, rfl, .inr ⟨far.1, rfl⟩⟩ widening, by simpa using held, same, size, by omega, ?_, ?_⟩
      · rw [again, Bool.true_or, decide_eq_true (by omega), Bool.or_true]
      · exact List.forall_mem_cons.mpr ⟨fun _ => found, targets⟩
    · obtain ⟨rest', widening, held, same, size, fewer, again, targets⟩ :=
        ih later holds.past placed.2
      refine ⟨node :: rest', .cons (.refl node) widening, by simpa using held, same,
        size.trans written.size, ?_, ?_, ?_⟩
      · simpa [shortCount, List.countP_cons] using fewer
      · rw [again, shortCount_lt_cons]
      · exact List.forall_mem_cons.mpr ⟨fun _ => found, targets⟩

/-- A run that asks for no further pass has reached every target. -/
theorem patch_settled {rest : List Instr} {loop : Patching}
    (run : (rest.map Instr.ptr).foldlM (PatchInstr platform) loop = .ok loop')
    (holds : loop.rewriter.Holds (done ++ rest)) (placed : Placed platform loop.rewriter place rest)
    (settled : loop'.fTryAgain = false) :
    loop'.rewriter = loop.rewriter ∧ EveryAt platform (fun place node => node.isBranch platform →
      ¬FarShort platform loop.rewriter.m_offset place node ∧ ∃ slot,
        slotAt platform node (wrap32 place) (wrap32 (place + nodeSize platform node.opcode)) = .ok slot ∧
        slot + slotWidth platform node ≤ loop.buffer.size) place rest := by
  induction rest generalizing loop done place with
  | nil =>
    cases run
    exact ⟨rfl, trivial⟩
  | cons node rest ih =>
    rw [List.map_cons, List.foldlM_cons] at run
    obtain ⟨middle, turn, later⟩ := Outcome.bind_eq_ok_iff.mp run
    have fields : loop.rewriter.Fields (node :: rest) :=
      fun other member => holds.fields other (List.mem_append_right _ member)
    have holds' := holds.past
    rcases PatchInstr_cases fields placed turn with ⟨plain, rfl⟩ | ⟨branch, -, far, rfl⟩ |
      ⟨branch, -, near, slot, buffer, fits, written, rfl⟩
    · obtain ⟨same, others⟩ := ih later holds' placed.2
      exact ⟨same, fun branch => absurd branch plain, others⟩
    · have held := holds.widen
      obtain ⟨_, _, _, _, _, _, again, _⟩ := patch_all later held placed.2
      rw [settled, Bool.true_or] at again
      exact absurd again (by decide)
    · obtain ⟨same, others⟩ := ih later holds' placed.2
      rw [written.size] at others
      refine ⟨same, fun _ => ⟨near, slot, fits, ?_⟩, others⟩
      have inside := written.fits
      rw [length_slotBytes] at inside
      refine inside fun empty => ?_
      have width := congrArg List.length empty
      rw [length_slotBytes, slotWidth,
        if_pos (show platform.s_OpCodeFlags node.opcode &&& OPCODEFLAGS_BranchTarget ≠ 0 from branch)] at width
      exact absurd width (operandWidth_branch branch)

/-- Behind the opcode, as long as nothing leaves the 32-bit range. -/
theorem slotAt_eq {node : Instr} (branch : node.isBranch platform)
    (small : place + nodeSize platform node.opcode < 2 ^ 32) :
    slotAt platform node (wrap32 place) (wrap32 (place + nodeSize platform node.opcode)) =
      .ok (place + (fixedBytes platform node).length) := by
  have widths := length_fixedBytes platform node
  rw [wrap32_of_lt small, wrap32_of_lt (by omega), slotAt]
  split
  · rename_i internal
    rw [fixedBytes_switchArg internal]
    rfl
  · rw [slotWidth, if_pos (show platform.s_OpCodeFlags node.opcode &&& OPCODEFLAGS_BranchTarget ≠ 0 from branch)] at widths
    rw [slotBefore, if_pos (by omega)]
    congr 1
    omega

/-- The bytes behind both passes, where the whole list has room. -/
theorem patch_content {rest : List Instr} {loop : Patching}
    (run : (rest.map Instr.ptr).foldlM (PatchInstr platform) loop = .ok loop')
    (holds : loop.rewriter.Holds (done ++ rest)) (placed : Placed platform loop.rewriter place rest)
    (settled : loop'.fTryAgain = false) (narrow : loop.buffer.size < 2 ^ 32)
    (room : place + totalSize platform rest ≤ loop.buffer.size)
    (contents : EveryAt platform (fun place node =>
      loop.buffer.read place (fixedBytes platform node).length = fixedBytes platform node) place rest) :
    loop'.buffer.read place (totalSize platform rest) =
        encodeFrom platform loop.rewriter.m_offset loop.switchBase place rest ∧
      ∀ i < place, loop'.buffer.byte i = loop.buffer.byte i := by
  induction rest generalizing loop done place with
  | nil =>
    cases run
    exact ⟨rfl, fun _ _ => rfl⟩
  | cons node rest ih =>
    rw [totalSize_cons] at room
    rw [List.map_cons, List.foldlM_cons] at run
    obtain ⟨middle, turn, later⟩ := Outcome.bind_eq_ok_iff.mp run
    have fields : loop.rewriter.Fields (node :: rest) :=
      fun other member => holds.fields other (List.mem_append_right _ member)
    have holds' := holds.past
    have widths := length_fixedBytes platform node
    have whole : (loop'.buffer.read place (totalSize platform (node :: rest))) =
        loop'.buffer.read place (fixedBytes platform node).length ++
          loop'.buffer.read (place + (fixedBytes platform node).length) (slotWidth platform node) ++
          loop'.buffer.read (place + nodeSize platform node.opcode) (totalSize platform rest) := by
      rw [totalSize_cons, Buffer.read_append, ← widths, Buffer.read_append]
    rw [whole, encodeFrom]
    rcases PatchInstr_cases fields placed turn with ⟨plain, rfl⟩ | ⟨branch, -, far, rfl⟩ |
      ⟨branch, -, near, slot, buffer, fits, written, rfl⟩
    · obtain ⟨bytes, earlier⟩ := ih later holds' placed.2 narrow (by simpa [Nat.add_assoc] using room) contents.2
      have noSlot : slotWidth platform node = 0 := if_neg plain
      have slotEmpty : slotBytes platform loop.rewriter.m_offset loop.switchBase place node = [] :=
        List.eq_nil_of_length_eq_zero (by rw [length_slotBytes, noSlot])
      refine ⟨?_, fun i before => earlier i (by omega)⟩
      have kept : loop'.buffer.read place (fixedBytes platform node).length =
          loop.buffer.read place (fixedBytes platform node).length :=
        Buffer.read_congr fun i _ upper => earlier i (by omega)
      rw [bytes, kept, contents.1, noSlot, slotEmpty]
      rfl
    · have held := holds.widen
      obtain ⟨_, _, _, _, _, _, again, _⟩ := patch_all later held placed.2
      rw [settled, Bool.true_or] at again
      exact absurd again (by decide)
    · rw [slotAt_eq branch (by omega)] at fits
      cases fits
      have size := written.size
      have contents' : EveryAt platform (fun place node =>
          buffer.read place (fixedBytes platform node).length = fixedBytes platform node)
          (place + nodeSize platform node.opcode) rest := by
        refine everyAt_iff.mpr fun before other after split => ?_
        refine Eq.trans (Buffer.read_congr fun i lower _ => written.elsewhere i (.inr ?_))
          (everyAt_iff.mp contents.2 before other after split)
        rw [length_slotBytes]
        omega
      obtain ⟨bytes, earlier⟩ := ih later holds' placed.2 (size.trans_lt narrow)
        (Nat.le_trans (by omega) (Nat.le_of_eq size.symm)) contents'
      have behind := baseBehind_branch loop.switchBase place branch
      refine ⟨?_, fun i before => (earlier i (by omega)).trans (written.elsewhere i (.inl (by omega)))⟩
      have fixed : loop'.buffer.read place (fixedBytes platform node).length = fixedBytes platform node :=
        Eq.trans (Buffer.read_congr fun i _ upper =>
          (earlier i (by omega)).trans (written.elsewhere i (.inl upper))) contents.1
      have slot : loop'.buffer.read (place + (fixedBytes platform node).length) (slotWidth platform node) =
          slotBytes platform loop.rewriter.m_offset loop.switchBase place node := by
        have stored := written.content
        rw [length_slotBytes] at stored
        exact Eq.trans (Buffer.read_congr fun i _ upper => earlier i (by omega)) stored
      rw [fixed, slot, behind]
      exact congrArg _ bytes

/-- The second pass goes through where the whole list has room and every target is allocated. -/
theorem patch_succeeds {rest : List Instr} {loop : Patching} (holds : loop.rewriter.Holds (done ++ rest))
    (placed : Placed platform loop.rewriter place rest) (narrow : loop.buffer.size < 2 ^ 32)
    (room : place + totalSize platform rest ≤ loop.buffer.size)
    (targets : ∀ node ∈ rest, node.isBranch platform → loop.rewriter.deref node.operand = .ok node.operand) :
    ∃ loop', (rest.map Instr.ptr).foldlM (PatchInstr platform) loop = .ok loop' := by
  induction rest generalizing loop done place with
  | nil => exact ⟨loop, rfl⟩
  | cons node rest ih =>
    rw [totalSize_cons] at room
    obtain ⟨target, targets⟩ := List.forall_mem_cons.mp targets
    have holds' := holds.past
    have turn := PatchInstr_eq (holds.opcode node (by simp)) (holds.operand node (by simp)) placed.1.1 placed.1.2
    rw [List.map_cons, List.foldlM_cons, turn]
    by_cases branch : node.isBranch platform
    · rw [if_pos branch, target branch, Outcome.ok_bind]
      by_cases far : FarShort platform loop.rewriter.m_offset place node
      · have held := holds.widen
        rw [if_pos far, Outcome.ok_bind]
        exact ih held placed.2 narrow (by simpa [Nat.add_assoc] using room) targets
      · have widths := length_fixedBytes platform node
        obtain ⟨buffer, stored⟩ : ∃ buffer, store loop.buffer (place + (fixedBytes platform node).length)
            (slotBytes platform loop.rewriter.m_offset loop.switchBase place node) = .ok buffer :=
          store_of_le (by rw [length_slotBytes]; omega)
        have size := (store_eq_ok stored).size
        rw [if_neg far, slotAt_eq branch (by omega), Outcome.ok_bind, stored, Outcome.ok_bind, Outcome.ok_bind]
        exact ih holds' placed.2 (size.trans_lt narrow) (Nat.le_trans (by omega) (Nat.le_of_eq size.symm)) targets
    · rw [if_neg branch, Outcome.ok_bind]
      exact ih holds' placed.2 narrow (by simpa [Nat.add_assoc] using room) targets

/-- A run over branches in reach of their targets asks for no further pass. -/
theorem patch_near {rest : List Instr} {loop : Patching}
    (run : (rest.map Instr.ptr).foldlM (PatchInstr platform) loop = .ok loop')
    (fields : loop.rewriter.Fields rest) (placed : Placed platform loop.rewriter place rest)
    (near : EveryAt platform (fun place node => ¬FarShort platform loop.rewriter.m_offset place node) place rest) :
    loop'.fTryAgain = loop.fTryAgain := by
  induction rest generalizing loop place with
  | nil =>
    cases run
    rfl
  | cons node rest ih =>
    rw [List.map_cons, List.foldlM_cons] at run
    obtain ⟨middle, turn, later⟩ := Outcome.bind_eq_ok_iff.mp run
    have others : loop.rewriter.Fields rest := fun other member => fields other (List.mem_cons_of_mem _ member)
    rcases PatchInstr_cases fields placed turn with ⟨-, rfl⟩ | ⟨-, -, far, rfl⟩ | ⟨-, -, -, slot, buffer, -, -, rfl⟩
    · have settled := ih later others placed.2 near.2
      exact settled
    · exact absurd far near.1
    · have settled := ih later others placed.2 near.2
      exact settled

theorem store_refuses {failure : Failure} (run : store buffer offset bytes = .error failure) :
    failure = .outOfBounds := by
  unfold store at run
  split at run <;> cases run
  rfl

/-- With every target allocated the second pass fails at the end of the buffer only. -/
theorem patch_refuses {rest : List Instr} {loop : Patching} {failure : Failure}
    (run : (rest.map Instr.ptr).foldlM (PatchInstr platform) loop = .error failure)
    (holds : loop.rewriter.Holds (done ++ rest)) (placed : Placed platform loop.rewriter place rest)
    (targets : ∀ node ∈ rest, node.isBranch platform → loop.rewriter.deref node.operand = .ok node.operand) :
    failure = .outOfBounds := by
  induction rest generalizing loop done place with
  | nil => cases run
  | cons node rest ih =>
    obtain ⟨target, targets⟩ := List.forall_mem_cons.mp targets
    have holds' := holds.past
    have turn := PatchInstr_eq (holds.opcode node (by simp)) (holds.operand node (by simp)) placed.1.1 placed.1.2
    rw [List.map_cons, List.foldlM_cons, turn] at run
    by_cases branch : node.isBranch platform
    · rw [if_pos branch, target branch, Outcome.ok_bind] at run
      by_cases far : FarShort platform loop.rewriter.m_offset place node
      · have held := holds.widen
        rw [if_pos far, Outcome.ok_bind] at run
        exact ih run held placed.2 targets
      · rw [if_neg far] at run
        rcases Outcome.bind_eq_error_iff.mp run with failed | ⟨next, written, later⟩
        · rcases Outcome.bind_eq_error_iff.mp failed with outside | ⟨slot, -, rest⟩
          · unfold slotAt slotBefore at outside
            split at outside
            · cases outside
            · split at outside <;> cases outside
              rfl
          · rcases Outcome.bind_eq_error_iff.mp rest with outside | ⟨_, -, done⟩
            · exact store_refuses outside
            · cases done
        · obtain ⟨slot, -, rest⟩ := Outcome.bind_eq_ok_iff.mp written
          obtain ⟨buffer, -, rest⟩ := Outcome.bind_eq_ok_iff.mp rest
          cases rest
          exact ih later holds' placed.2 targets
    · rw [if_neg branch, Outcome.ok_bind] at run
      exact ih run holds' placed.2 targets

/-- A list both passes went through fits into the buffer. -/
theorem roomy_of_passes {nodes : List Instr} (narrow : size < 2 ^ 32) (start : place ≤ size)
    (emitted : EveryAt platform (fun place node => fixedBytes platform node ≠ [] →
      wrap32 place + (fixedBytes platform node).length ≤ size) place nodes)
    (patched : EveryAt platform (fun place node => node.isBranch platform → ∃ slot,
      slotAt platform node (wrap32 place) (wrap32 (place + nodeSize platform node.opcode)) = .ok slot ∧
      slot + slotWidth platform node ≤ size) place nodes) :
    place + totalSize platform nodes ≤ size := by
  induction nodes generalizing place with
  | nil => simpa using start
  | cons node rest ih =>
    have widths := length_fixedBytes platform node
    have inRange : wrap32 place = place := wrap32_of_lt (by omega)
    have written : place + (fixedBytes platform node).length ≤ size := by
      by_cases empty : fixedBytes platform node = []
      · simpa [empty] using start
      · have fits := emitted.1 empty
        rwa [inRange] at fits
    have next : place + nodeSize platform node.opcode ≤ size := by
      by_cases branch : node.isBranch platform
      · obtain ⟨slot, found, fits⟩ := patched.1 branch
        rw [slotAt] at found
        split at found
        · cases found
          rename_i internal
          rw [fixedBytes_switchArg internal, List.length_nil] at widths
          rw [inRange] at fits
          omega
        · have width : slotWidth platform node = operandWidth platform node.opcode := if_pos branch
          unfold slotBefore at found
          split at found
          · cases found
            rename_i behind
            -- A displacement that crossed 2^32 would start in front of the buffer.
            have narrowWidth : operandWidth platform node.opcode ≤ 15 := Nat.and_le_right
            rw [width] at fits
            unfold wrap32 at fits behind
            omega
          · cases found
      · have noSlot : slotWidth platform node = 0 := if_neg branch
        omega
    have later := ih next emitted.2 patched.2
    rw [totalSize_cons]
    omega

end ILRewriter

end ClrProfiling
