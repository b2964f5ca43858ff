import ClrProfiling.IL.LeastWidening

/-! The passes of the `again` loop against the buffer they write to, each pass on its own. -/

namespace ClrProfiling

open LinkedRing Word ILRewriter

/-- The list and the buffer the passes of Export start with. -/
inductive PassStart (platform : Platform) (s : ILRewriter) : ILRewriter → Buffer → Prop
  | first : PassStart platform s s (s.outputBuffer platform)
  | again {s' : ILRewriter} {buffer : Buffer} {pass : Emission} {patched : Patching} :
      PassStart platform s s' buffer → s'.EmitPass platform buffer = .ok pass → pass.fBranch = true →
      PatchPass platform pass = .ok patched → patched.fTryAgain = true →
      PassStart platform s patched.rewriter patched.buffer

/-- One pass that keeps to the buffer and to the place of every node: a write outside the buffer
is the failure `outOfBounds`, and a patch is a write between the opcode of its node and the next node. -/
structure PassInside (platform : Platform) (maxSize : Nat) (s : ILRewriter) (buffer : Buffer) : Prop where
  size : buffer.size = maxSize
  emits : ∃ pass, s.EmitPass platform buffer = .ok pass
  below : ∀ pass, s.EmitPass platform buffer = .ok pass → ∀ node ∈ s.listing,
    pass.rewriter.m_offset node.ptr < maxSize
  occupies : ∀ pass, s.EmitPass platform buffer = .ok pass → ∀ node ∈ s.listing,
    pass.rewriter.m_offset (pass.rewriter.m_pNext node.ptr) =
        pass.rewriter.m_offset node.ptr + nodeSize platform node.opcode ∧
      pass.buffer.read (pass.rewriter.m_offset node.ptr) (fixedBytes platform node).length = fixedBytes platform node
  patches : ∀ pass, s.EmitPass platform buffer = .ok pass → PatchPass platform pass ≠ .error .outOfBounds
  slots : ∀ pass, s.EmitPass platform buffer = .ok pass →
    ∀ before node after loop loop', s.listing = before ++ node :: after →
      (before.map Instr.ptr).foldlM (PatchInstr platform) ⟨pass.rewriter, pass.buffer, 0, false⟩ = .ok loop →
      PatchInstr platform loop node.ptr = .ok loop' →
        loop'.buffer = loop.buffer ∨ ∃ slot bytes, store loop.buffer slot bytes = .ok loop'.buffer ∧
          pass.rewriter.m_offset node.ptr + (headBytes platform node.opcode).length ≤ slot ∧
          slot + bytes.length = pass.rewriter.m_offset (pass.rewriter.m_pNext node.ptr)

section Patching

variable {platform : Platform}

/-- With room for the whole list the second pass fails at a stray target only. -/
private theorem patch_stays {rest : List Instr} {loop : Patching} {failure : Failure}
    (run : (rest.map Instr.ptr).foldlM (PatchInstr platform) loop = .error failure)
    (holds : loop.rewriter.Holds (done ++ rest)) (placed : Placed platform loop.rewriter place rest)
    (narrow : loop.buffer.size < 2 ^ 32) (room : place + totalSize platform rest ≤ loop.buffer.size) :
    failure = .invalidPointer := by
  induction rest generalizing loop done place with
  | nil => cases run
  | cons node rest ih =>
    rw [totalSize_cons] at room
    have holds' := holds.past
    have turn := PatchInstr_eq (holds.opcode node (by simp)) (holds.operand node (by simp)) placed.1.1 placed.1.2
    rw [List.map_cons, List.foldlM_cons, turn] at run
    by_cases branch : node.isBranch platform
    · rw [if_pos branch] at run
      cases target : loop.rewriter.deref node.operand with
      | error failed =>
        rw [target] at run
        cases run
        exact deref_eq_error target
      | ok found =>
        rw [target, Outcome.ok_bind] at run
        by_cases far : FarShort platform loop.rewriter.m_offset place node
        · have held := holds.widen
          rw [if_pos far, Outcome.ok_bind] at run
          exact ih run held placed.2 narrow (by simpa [Nat.add_assoc] using room)
        · have widths := length_fixedBytes platform node
          obtain ⟨buffer, stored⟩ : ∃ buffer, store loop.buffer (place + (fixedBytes platform node).length)
              (slotBytes platform loop.rewriter.m_offset loop.switchBase place node) = .ok buffer :=
            store_of_le (by rw [length_slotBytes]; omega)
          have size := (store_eq_ok stored).size
          rw [if_neg far, slotAt_eq branch (by omega), Outcome.ok_bind, stored, Outcome.ok_bind, Outcome.ok_bind] at run
          exact ih run holds' placed.2 (size.trans_lt narrow) (Nat.le_trans (by omega) (Nat.le_of_eq size.symm))
    · rw [if_neg branch, Outcome.ok_bind] at run
      exact ih run holds' placed.2 narrow (by simpa [Nat.add_assoc] using room)

/-- The second pass up to a node leaves that node, everything behind it and all offsets as they were. -/
theorem patch_front {before rest : List Instr} {loop loop' : Patching}
    (run : (before.map Instr.ptr).foldlM (PatchInstr platform) loop = .ok loop')
    (holds : loop.rewriter.Holds (done ++ (before ++ rest)))
    (placed : Placed platform loop.rewriter place (before ++ rest)) :
    loop'.rewriter.m_offset = loop.rewriter.m_offset ∧ ∃ done', loop'.rewriter.Holds (done' ++ rest) ∧
      Placed platform loop'.rewriter (place + totalSize platform before) rest := by
  induction before generalizing loop done place with
  | nil =>
    cases run
    exact ⟨rfl, done, holds, placed⟩
  | cons node before ih =>
    rw [List.map_cons, List.foldlM_cons] at run
    obtain ⟨middle, turn, later⟩ := Outcome.bind_eq_ok_iff.mp run
    have fields : loop.rewriter.Fields (node :: (before ++ rest)) :=
      fun other member => holds.fields other (List.mem_append_right _ member)
    rw [totalSize_cons, ← Nat.add_assoc]
    rcases PatchInstr_cases fields placed turn with ⟨-, rfl⟩ | ⟨-, -, -, rfl⟩ | ⟨-, -, -, slot, buffer, -, -, rfl⟩
    · obtain ⟨offsets, onward⟩ := ih later holds.past placed.2
      exact ⟨offsets, onward⟩
    · obtain ⟨offsets, onward⟩ := ih later holds.widen placed.2
      exact ⟨offsets, onward⟩
    · obtain ⟨offsets, onward⟩ := ih later holds.past placed.2
      exact ⟨offsets, onward⟩

end Patching

section Passes

variable {platform : Platform} {nodes : List Instr} {s : ILRewriter} {buffer : Buffer}

private theorem emitted_place {pass : Emission} (emitted : EmittedPass platform nodes s buffer pass)
    (small : totalSize platform nodes < 2 ^ 32) (split : nodes = before ++ node :: after) :
    pass.rewriter.m_offset node.ptr = totalSize platform before ∧
      pass.rewriter.m_offset (pass.rewriter.m_pNext node.ptr) =
        totalSize platform before + nodeSize platform node.opcode := by
  obtain ⟨here, next⟩ := everyAt_iff.mp emitted.placed before node after split
  have total : totalSize platform nodes =
      totalSize platform before + (nodeSize platform node.opcode + totalSize platform after) := by
    rw [split, totalSize_append, totalSize_cons]
  rw [Nat.zero_add] at here next
  exact ⟨here.trans (wrap32_of_lt (by omega)), next.trans (wrap32_of_lt (by omega))⟩

/-- With ten bytes for every node a pass keeps to its buffer. -/
theorem passInside_of_room (holds : s.Holds nodes) (blocked : WellBlocked platform nodes)
    (narrow : buffer.size < 2 ^ 32)
    (room : 10 * nodes.length ≤ buffer.size) : PassInside platform buffer.size s buffer := by
  have fits : totalSize platform nodes ≤ buffer.size := (totalSize_le nodes).trans room
  have listing := holds.listing_eq
  refine ⟨rfl, EmitPass_succeeds holds narrow fits, ?_, ?_, ?_, ?_⟩
  · intro pass emit node member
    rw [listing] at member
    obtain ⟨before, after, split⟩ := List.append_of_mem member
    have place := (emitted_place (EmitPass_eq_ok holds narrow emit) (by omega) split).1
    have positive := nodeSize_pos blocked member
    have total : totalSize platform nodes =
        totalSize platform before + (nodeSize platform node.opcode + totalSize platform after) := by
      rw [split, totalSize_append, totalSize_cons]
    omega
  · intro pass emit node member
    rw [listing] at member
    obtain ⟨before, after, split⟩ := List.append_of_mem member
    obtain ⟨here, next⟩ := emitted_place (EmitPass_eq_ok holds narrow emit) (by omega) split
    have content := everyAt_iff.mp (EmitPass_content holds narrow fits emit) before node after split
    rw [Nat.zero_add] at content
    rw [here, next]
    exact ⟨rfl, content⟩
  · intro pass emit refused
    have emitted := EmitPass_eq_ok holds narrow emit
    rw [PatchPass_fold emitted.holds] at refused
    have stray := patch_stays refused (show pass.rewriter.Holds ([] ++ nodes) from emitted.holds) emitted.placed
      (emitted.size.trans_lt narrow) (by rw [Nat.zero_add]; exact fits.trans (Nat.le_of_eq emitted.size.symm))
    cases stray
  · intro pass emit before node after loop loop' split run turn
    rw [listing] at split
    have emitted := EmitPass_eq_ok holds narrow emit
    obtain ⟨start, next⟩ := emitted_place emitted (by omega) split
    subst split
    obtain ⟨-, done, held, placed⟩ := patch_front run
      (show pass.rewriter.Holds ([] ++ _) from emitted.holds) emitted.placed
    rw [PatchInstr_eq (held.opcode node (by simp)) (held.operand node (by simp)) placed.1.1 placed.1.2] at turn
    by_cases branch : node.isBranch platform
    · rw [if_pos branch] at turn
      obtain ⟨target, -, turn⟩ := Outcome.bind_eq_ok_iff.mp turn
      by_cases far : FarShort platform loop.rewriter.m_offset (0 + totalSize platform before) node
      · rw [if_pos far] at turn
        cases turn
        exact .inl rfl
      · have widths := length_fixedBytes platform node
        rw [totalSize_append, totalSize_cons] at fits
        rw [if_neg far, Nat.zero_add, slotAt_eq branch (by omega), Outcome.ok_bind] at turn
        obtain ⟨written, stored, turn⟩ := Outcome.bind_eq_ok_iff.mp turn
        cases turn
        refine .inr ⟨_, _, stored, ?_, ?_⟩
        · rw [start, fixedBytes, List.length_append]
          omega
        · rw [next, length_slotBytes]
          omega
    · rw [if_neg branch] at turn
      cases turn
      exact .inl rfl

private theorem PassInside.rank_le {maxSize : Nat} {pass : Emission} (inside : PassInside platform maxSize s buffer)
    (holds : s.Holds nodes) (blocked : WellBlocked platform nodes) (narrow : buffer.size < 2 ^ 32)
    (emit : s.EmitPass platform buffer = .ok pass) (split : nodes = before ++ node :: after) :
    before.length ≤ pass.rewriter.m_offset node.ptr := by
  have emitted := EmitPass_eq_ok holds narrow emit
  induction before using List.reverseRecOn generalizing node after with
  | nil => exact Nat.zero_le _
  | append_singleton before previous ih =>
    rw [List.append_assoc, List.singleton_append] at split
    have rank := ih split
    have listed : previous ∈ nodes := by simp [split]
    have positive := nodeSize_pos blocked listed
    have next := (inside.occupies pass emit previous (by rwa [holds.listing_eq])).1
    have onward : pass.rewriter.m_pNext previous.ptr = node.ptr := (split ▸ emitted.holds).next_eq
    rw [onward] at next
    rw [List.length_append, List.length_singleton, next]
    omega

private theorem PassInside.length_lt {maxSize : Nat} (inside : PassInside platform maxSize s buffer)
    (holds : s.Holds nodes) (blocked : WellBlocked platform nodes) (size : maxSize = s.m_nInstrs * 10)
    (count : s.m_nInstrs = wrap32 nodes.length) (narrow : buffer.size < 2 ^ 32) : nodes.length < 2 ^ 32 := by
  obtain ⟨pass, emit⟩ := inside.emits
  rcases List.eq_nil_or_concat nodes with rfl | ⟨front, last, rfl⟩
  · simp
  · rw [List.concat_eq_append] at holds blocked count ⊢
    have rank := inside.rank_le holds blocked narrow emit rfl
    have below := inside.below pass emit last (by simp [holds.listing_eq])
    have room := inside.size
    rw [List.length_append, List.length_singleton] at count ⊢
    rw [count, wrap32] at size
    omega

end Passes

section Whole

variable {platform : Platform} {body : MethodBody} {hooks : Hooks} {s s' : ILRewriter}

/-- Every pass starts with the list widened so far and a buffer of the size of the first. -/
theorem PassStart.holds {nodes : List Instr} {buffer : Buffer} (start : PassStart platform s s' buffer)
    (first : s.Holds nodes) (narrow : (s.outputBuffer platform).size < 2 ^ 32) :
    ∃ nodes', List.Forall₂ (Widened platform) nodes nodes' ∧ s'.Holds nodes' ∧
      buffer.size = (s.outputBuffer platform).size := by
  induction start with
  | first => exact ⟨nodes, forall₂_widened_refl nodes, first, rfl⟩
  | again _ emit _ patch _ ih =>
    obtain ⟨nodes', widening, held, size⟩ := ih
    have emitted := EmitPass_eq_ok held (size.trans_lt narrow) emit
    rw [PatchPass_fold emitted.holds] at patch
    obtain ⟨nodes'', widening', held', -, size', -⟩ :=
      patch_all patch (show Holds _ ([] ++ nodes') from emitted.holds) emitted.placed
    exact ⟨nodes'', forall₂_widened_trans widening widening', held', size'.trans (emitted.size.trans size)⟩

/-- Export keeps to its buffer in every pass exactly where the 32-bit counter of the nodes has not
come round. -/
theorem export_inside_iff (imported : Import platform body = .ok s) (added : s.AddProbes platform hooks = .ok s')
    (fits : s'.m_nInstrs * 10 < 2 ^ 32) :
    (∀ s'' buffer, PassStart platform s' s'' buffer →
      PassInside platform (s'.outputBuffer platform).size s'' buffer) ↔ s'.listing.length < 2 ^ 32 := by
  obtain ⟨instrs, accepted⟩ := Import_eq_ok imported
  have injected := injected_of_added accepted added
  have holds := injected.holds
  have blocked := injected.blocked
  have count := holds.count
  have size : (s'.outputBuffer platform).size = s'.m_nInstrs * 10 := wrap32_of_lt fits
  have narrow : (s'.outputBuffer platform).size < 2 ^ 32 := by rw [size]; exact fits
  rw [holds.listing_eq]
  generalize (injectedNodes platform hooks instrs).map Probed.node = nodes at holds blocked count
  constructor
  · intro inside
    exact (inside s' _ .first).length_lt holds blocked size count narrow
  · intro small s'' buffer start
    obtain ⟨nodes', widening, held, same⟩ := start.holds holds narrow
    rw [← same]
    apply passInside_of_room held (blocked.widened widening) (same.trans_lt narrow)
    rw [same, size, count, wrap32_of_lt small, ← widening.length_eq, Nat.mul_comm]

/-- Every pass over the branch out of reach stays inside, that behind its widening too. -/
theorem export_inside_iff_farBranch : ∃ s s', Import Ecma335.platform farBranch = .ok s ∧
    s.AddProbes Ecma335.platform farBranchHooks = .ok s' ∧ s'.m_nInstrs * 10 < 2 ^ 32 ∧
    ∀ s'' buffer, PassStart Ecma335.platform s' s'' buffer →
      PassInside Ecma335.platform (s'.outputBuffer Ecma335.platform).size s'' buffer := by
  obtain ⟨s, s', run, added, injected⟩ := farBranch_injected
  have nodes : ((injectedNodes Ecma335.platform farBranchHooks farBranchInstrs).map Probed.node).length = 35 := by
    decide +kernel
  have small : s'.m_nInstrs * 10 < 2 ^ 32 := by
    rw [injected.holds.count, nodes]
    decide
  refine ⟨s, s', run, added, small, (export_inside_iff run added small).mpr ?_⟩
  rw [injected.holds.listing_eq, nodes]
  decide

end Whole

section Rets

/-- A body of `ret`s alone. -/
def rets (count : Nat) (inImage : count + 12 < 2 ^ 32) : MethodBody where
  Flags := 0
  MaxStack := 8
  LocalVarSigTok := 0
  Code := List.replicate count (UInt8.ofNat CEE_RET)
  EH := []
  maxStack_lt := smallStack_lt
  inImage := by rwa [List.length_replicate]
  clauses_le := noClauses_le

def retHooks : Hooks := ⟨0x06000001, 0x06000002, some 7⟩

variable (platform : Platform) (count : Nat) (inImage : count + 12 < 2 ^ 32)

private theorem rets_valid : ∀ instr ∈ List.replicate count (RawInstr.plain CEE_RET 0), instr.Valid platform := by
  intro instr member
  obtain rfl := List.eq_of_mem_replicate member
  refine ⟨platform.importable_oneByte (by decide), by decide, ?_⟩
  simp [operandWidth, platform.flags_CEE_RET]

private theorem rets_listing :
    (rets count inImage).Code = listingBytes platform (List.replicate count (.plain CEE_RET 0)) := by
  have byte : (RawInstr.plain CEE_RET 0).bytes platform = [UInt8.ofNat CEE_RET] := by
    simp [RawInstr.bytes, RawInstr.opcode, RawInstr.operandBytes, operandWidth, platform.flags_CEE_RET, opcodeBytes,
      LittleEndian.encode, OPCODEFLAGS_SizeMask]
    rfl
  rw [listingBytes, List.flatMap_replicate, byte, List.flatten_replicate_singleton]
  rfl

private theorem length_exitProbed {nodes : List Instr} (ret : ∀ node ∈ nodes, node.opcode = CEE_RET) (hook : UInt32)
    (argument : UInt64) (brk : Ptr) : (exitProbed hook (some argument) brk nodes).length = 4 * nodes.length := by
  induction nodes generalizing brk with
  | nil => rfl
  | cons node rest ih =>
    obtain ⟨first, others⟩ := List.forall_mem_cons.mp ret
    rw [exitProbed, if_pos first]
    simp only [probeNodes, List.length_cons, List.length_append, List.length_map, List.length_nil, ih others]
    omega

private theorem length_rets :
    (injectedNodes platform retHooks (List.replicate count (.plain CEE_RET 0))).length = 2 + 4 * count := by
  have opcodes : (importedNodes platform (List.replicate count (.plain CEE_RET 0))).map Instr.opcode =
      List.replicate count CEE_RET := by
    rw [importedNodes_opcodes, List.flatMap_replicate]
    exact List.flatten_replicate_singleton
  have length : (importedNodes platform (List.replicate count (.plain CEE_RET 0))).length = count := by
    have lengths := congrArg List.length opcodes
    rwa [List.length_map, List.length_replicate] at lengths
  have ret : ∀ node ∈ importedNodes platform (List.replicate count (.plain CEE_RET 0)), node.opcode = CEE_RET := by
    intro node member
    have listed := List.mem_map_of_mem (f := Instr.opcode) member
    rw [opcodes] at listed
    exact List.eq_of_mem_replicate listed
  have exits : ∀ brk, (exitProbed retHooks.onExitHook retHooks.hookArg brk
      (importedNodes platform (List.replicate count (.plain CEE_RET 0)))).length = 4 * count := by
    intro brk
    exact (length_exitProbed ret _ 7 brk).trans (by rw [length])
  rw [injectedNodes, probedNodes, if_pos (by decide), List.length_append, exits]
  rfl

theorem rets_injected (positive : 0 < count) : ∃ s s', Import platform (rets count inImage) = .ok s ∧
    s.AddProbes platform retHooks = .ok s' ∧
    Injected platform (rets count inImage) retHooks (List.replicate count (.plain CEE_RET 0)) s' ∧
    s'.m_nInstrs = wrap32 (2 + 4 * count) := by
  have ret : .plain CEE_RET 0 ∈ List.replicate count (RawInstr.plain CEE_RET 0) :=
    List.mem_replicate.mpr ⟨by omega, rfl⟩
  obtain ⟨s, s', run, added, -, injected⟩ := injected_of_listing (rets_valid platform count)
    (rets_listing platform count inImage) (by simp [rets]) retHooks fun _ => ⟨0, ret⟩
  have counted := injected.holds.count
  rw [List.length_map, length_rets platform count] at counted
  exact ⟨s, s', run, added, injected, counted⟩

private theorem rets_outside (wraps : 2 ^ 32 ≤ 2 + 4 * count) (fits : wrap32 (2 + 4 * count) * 10 < 2 ^ 32) :
    ∃ s s', Import platform (rets count inImage) = .ok s ∧ s.AddProbes platform retHooks = .ok s' ∧
      s'.m_nInstrs * 10 < 2 ^ 32 ∧
      ¬PassInside platform (s'.outputBuffer platform).size s' (s'.outputBuffer platform) := by
  obtain ⟨s, s', run, added, injected, counted⟩ := rets_injected platform count inImage (by omega)
  have small : s'.m_nInstrs * 10 < 2 ^ 32 := by rwa [counted]
  refine ⟨s, s', run, added, small, fun inside => ?_⟩
  have size : (s'.outputBuffer platform).size = s'.m_nInstrs * 10 := wrap32_of_lt small
  have length := inside.length_lt injected.holds injected.blocked size injected.holds.count (by rwa [size])
  rw [List.length_map, length_rets platform count] at length
  omega

/-- With 2^30 RETs the list has 2^32 + 2 nodes, which are counted as two. -/
theorem retSled_outside : ∃ s s', Import Ecma335.platform (rets (2 ^ 30) (by decide)) = .ok s ∧
    s.AddProbes Ecma335.platform retHooks = .ok s' ∧ s'.m_nInstrs * 10 < 2 ^ 32 ∧
    ¬∀ s'' buffer, PassStart Ecma335.platform s' s'' buffer →
      PassInside Ecma335.platform (s'.outputBuffer Ecma335.platform).size s'' buffer := by
  obtain ⟨s, s', run, added, small, outside⟩ :=
    rets_outside Ecma335.platform (2 ^ 30) (by decide) (by decide) (by decide)
  exact ⟨s, s', run, added, small, fun inside => outside (inside s' _ .first)⟩

end Rets

end ClrProfiling
