import ClrProfiling.Foundation.WeightedFlow
import ClrProfiling.IL.Injection

/-! The depth of the operand stack along the control flow of a list, with and without its probes. -/

namespace ClrProfiling

open LinkedRing FlowGraph

def COR_ILEXCEPTION_CLAUSE_FINALLY : UInt32 := 0x0002
def COR_ILEXCEPTION_CLAUSE_FAULT : UInt32 := 0x0004

/-- The depth behind each instruction, as ECMA-335 and the metadata of a module give it for
an opcode, its operand and the depth in front. A hook takes `hookArg` and returns nothing. -/
structure StackEffects (hooks : Hooks) where
  depthAfter : (opcode operand depth : Nat) → Nat
  nop : ∀ operand depth, depthAfter CEE_NOP operand depth = depth
  ldc_i4 : ∀ operand depth, depthAfter CEE_LDC_I4 operand depth = depth + 1
  ret : ∀ operand depth, depthAfter CEE_RET operand depth ≤ depth
  hook : ∀ hook ∈ [hooks.onEnterHook, hooks.onExitHook], hook ≠ mdTokenNil →
    ∀ depth, depthAfter CEE_CALL hook.toNat depth = depth - hooks.hookArg.elim 0 fun _ => 1

def StackEffects.after {hooks : Hooks} (effects : StackEffects hooks) (node : Instr) (depth : Nat) : Nat :=
  effects.depthAfter node.opcode node.operand depth

/-- A handler starts with the exception on the stack, unless it is a finally or fault handler. -/
def EHClause.handlerDepth (clause : EHClause) : Nat :=
  if clause.m_Flags &&& (COR_ILEXCEPTION_CLAUSE_FINALLY ||| COR_ILEXCEPTION_CLAUSE_FAULT) = 0 then 1 else 0

/-- The instructions of a clause that control comes in at, with the depth there. -/
def EHClause.opens (clause : EHClause) (p : Ptr) (depth : Nat) : Prop :=
  p = clause.m_pHandlerBegin ∧ depth = clause.handlerDepth ∨ p = clause.m_pFilter ∧ depth = 1

section Depth

variable {hooks : Hooks} (platform : Platform) (effects : StackEffects hooks) (clauses : List EHClause)
  (nodes : List Instr)

/-- Control comes in at the first node and at the handlers and filters. -/
def opensAt (node : Instr) (depth : Nat) : Prop :=
  nodes.head? = some node ∧ depth = 0 ∨ node ∈ nodes ∧ ∃ clause ∈ clauses, clause.opens node.ptr depth

def depthGraph : Graph (Instr × Nat) := (flowGraph platform nodes).weighted (opensAt clauses nodes) effects.after

/-- No path puts more than `maxStack` on the operand stack. -/
def StackBounded (maxStack : Nat) : Prop :=
  ∀ node depth, (depthGraph platform effects clauses nodes).Reached (node, depth) →
    depth ≤ maxStack ∧ effects.after node depth ≤ maxStack

end Depth

section Settling

/-- The depth at the instruction shown next: a hook call takes its argument away first. -/
def Probed.settle (hookArg : Option UInt64) (entry : Probed) (depth : Nat) : Nat :=
  if entry.added ∧ entry.node.opcode = CEE_CALL ∧ hookArg.isSome then depth - 1 else depth

theorem Probed.settle_kept {entry : Probed} (kept : entry.added = false) (hookArg : Option UInt64) (depth : Nat) :
    entry.settle hookArg depth = depth := by
  simp [settle, kept]

theorem Probed.settle_zero (entry : Probed) (hookArg : Option UInt64) : entry.settle hookArg 0 = 0 := by
  simp [settle]

theorem Probed.settle_of_opcode {entry : Probed} (other : entry.node.opcode ≠ CEE_CALL) (hookArg : Option UInt64)
    (depth : Nat) : entry.settle hookArg depth = depth := by
  simp [settle, other]

variable {hooks : Hooks} {effects : StackEffects hooks}

/-- A hidden entry leaves the next one with the depth it settles to itself. -/
def Settles (effects : StackEffects hooks) (entry other : Probed) : Prop :=
  entry.shown = none → ∀ depth, other.settle hooks.hookArg (effects.after entry.node depth) =
    entry.settle hooks.hookArg depth

private theorem settles_probe (probe : Instr → Probed) {hook : UInt32} {rest : List Probed} (brk : Ptr)
    (added : ∀ node, (probe node).added = true ∧ (probe node).node = node)
    (listed : hook ∈ [hooks.onEnterHook, hooks.onExitHook]) (present : hook ≠ mdTokenNil)
    (plain : ∀ entry ∈ rest.head?, ∀ depth, entry.settle hooks.hookArg depth = depth)
    (chain : rest.IsChain (Settles effects)) :
    ((probeNodes brk hook hooks.hookArg).map probe ++ rest).IsChain (Settles effects) := by
  have call := effects.hook hook listed present
  cases argument : hooks.hookArg with
  | none =>
    refine List.isChain_cons.mpr ⟨fun entry first _ depth => ?_, chain⟩
    rw [argument] at call
    rw [plain entry first, (added _).2, StackEffects.after, call]
    simp [Probed.settle, argument]
  | some value =>
    refine List.isChain_cons_cons.mpr ⟨fun _ depth => ?_, List.isChain_cons.mpr ⟨fun entry first _ depth => ?_, chain⟩⟩
    · rw [(added _).2, StackEffects.after, effects.ldc_i4]
      simp [Probed.settle, added, argument]
    · rw [argument] at call
      rw [plain entry first, (added _).2, StackEffects.after, call]
      simp [Probed.settle, added, argument]

private theorem Expanded.head_settle (expanded : Expanded onExitHook hookArg nodes probed) :
    ∀ entry ∈ probed.head?, ∀ depth, entry.settle hooks.hookArg depth = depth := by
  intro entry first
  cases expanded with
  | nil => simp at first
  | keep node rest =>
    obtain rfl : _ = entry := by simpa using first
    exact Probed.settle_kept rfl _
  | ret node opcode brk newRet rest =>
    obtain rfl : _ = entry := by simpa using first
    exact Probed.settle_kept rfl _

private theorem Expanded.settles (present : hooks.onExitHook ≠ mdTokenNil)
    (expanded : Expanded hooks.onExitHook hooks.hookArg nodes probed) : probed.IsChain (Settles effects) := by
  induction expanded with
  | nil => exact .nil
  | keep node rest ih => exact List.isChain_cons.mpr ⟨fun other _ hidden => absurd hidden (by simp [Probed.shown]), ih⟩
  | @ret nodes probed node opcode brk newRet rest ih =>
    have last : (⟨⟨newRet, CEE_RET, 0⟩, .returns node⟩ :: probed).IsChain (Settles effects) :=
      List.isChain_cons.mpr ⟨fun other _ hidden => absurd hidden (by simp [Probed.shown]), ih⟩
    have probe := settles_probe (⟨·, .exitProbe node⟩) brk (fun _ => ⟨rfl, rfl⟩) (by simp) present
      (fun entry first depth => ?_) last
    · refine List.isChain_cons.mpr ⟨fun entry first _ depth => ?_, probe⟩
      have kept : (⟨{ node with opcode := CEE_NOP }, .replaced node⟩ : Probed).added = false := rfl
      rw [StackEffects.after, effects.nop, Probed.settle_kept kept]
      cases argument : hooks.hookArg with
      | none => simp [Probed.settle]
      | some value =>
        rw [argument] at first
        obtain rfl : _ = entry := by simpa [probeNodes] using first
        exact Probed.settle_of_opcode (show CEE_LDC_I4 ≠ CEE_CALL by decide) _ _
    · obtain rfl : _ = entry := by simpa using first
      exact Probed.settle_of_opcode (show CEE_RET ≠ CEE_CALL by decide) _ _

/-- Along the whole list the depth settles to the one in front of the probes. -/
theorem probed_settles (effects : StackEffects hooks) (brk : Ptr) (nodes : List Instr) :
    (probedNodes hooks brk nodes).IsChain (Settles effects) := by
  have exits : (exitEntries hooks brk nodes).IsChain (Settles effects) := by
    by_cases present : hooks.onExitHook ≠ mdTokenNil
    · exact (expanded_exitEntries hooks brk nodes).settles present
    · rw [exitEntries, if_neg present]
      refine List.Pairwise.isChain (List.pairwise_map.mpr (List.pairwise_of_forall fun node other hidden => ?_))
      exact absurd hidden (by simp [Probed.shown])
  rw [probedNodes_eq, entries, enterNodes]
  split
  · exact settles_probe (⟨·, .enterProbe⟩) brk (fun _ => ⟨rfl, rfl⟩) (by simp) ‹_›
      (expanded_exitEntries hooks brk nodes).head_settle exits
  · exact exits

end Settling

section Erasure

variable {platform : Platform} {hooks : Hooks} {effects : StackEffects hooks} {clauses : List EHClause}
  {nodes enter : List Instr} {exits : List Probed} {onExitHook : UInt32} {hookArg : Option UInt64} {brk : Ptr}

/-- An original instruction goes on to what was not added. -/
theorem Probes.step_original (probes : Probes platform onExitHook hookArg nodes enter exits)
    (member : ⟨node, .original⟩ ∈ entries enter exits)
    (step : (flowGraph platform ((entries enter exits).map Probed.node)).step node other) :
    ∃ entry ∈ entries enter exits, entry.node = other ∧ entry.added = false := by
  obtain ⟨here, falls | ⟨inside, jump⟩⟩ := step_iff.mp step
  · have original := probes.falls_original member nodes.head?
    cases next : fallThrough platform nodes node with
    | none =>
      rw [next] at original
      rw [original] at falls
      cases falls
    | some y =>
      rw [next] at original
      obtain ⟨entry, listed, there, -, kept⟩ := original
      exact ⟨entry, listed, Option.some.inj (there.symm.trans falls), kept⟩
  · obtain ⟨entry, listed, rfl⟩ := List.mem_map.mp inside
    obtain ⟨branch, branchMember, isBranch, target⟩ := jumps_operand here jump
    refine ⟨entry, listed, rfl, Bool.eq_false_iff.mpr fun added => ?_⟩
    exact probes.not_target listed added branch branchMember isBranch target.symm

/-- The pointers of clauses lead to instructions of the list, or nowhere behind the probes either. -/
def ClausesApart (clauses : List EHClause) (nodes : List Instr) (probed : List Probed) : Prop :=
  ∀ clause ∈ clauses, ∀ p ∈ [clause.m_pHandlerBegin, clause.m_pFilter],
    p ∈ nodes.map Instr.ptr ∨ p ∉ (probed.map Probed.node).map Instr.ptr

/-- Control comes in from outside at what was not added, or at the first node of all. -/
theorem Probes.opens_kept (probes : Probes platform onExitHook hookArg nodes enter exits)
    (apart : ClausesApart clauses nodes (entries enter exits)) (member : entry ∈ entries enter exits)
    (listed : clause ∈ clauses) (opens : clause.opens entry.node.ptr depth) : entry.added = false := by
  have original : entry.node.ptr ∈ nodes.map Instr.ptr := by
    have inside : entry.node.ptr ∈ ((entries enter exits).map Probed.node).map Instr.ptr :=
      List.mem_map_of_mem (List.mem_map_of_mem member)
    rcases opens with ⟨here, -⟩ | ⟨here, -⟩
    · exact (apart clause listed entry.node.ptr (by simp [here])).resolve_right fun outside => outside inside
    · exact (apart clause listed entry.node.ptr (by simp [here])).resolve_right fun outside => outside inside
  obtain ⟨node, nodeMember, same⟩ := List.mem_map.mp original
  obtain ⟨other, otherMember, there, -, kept⟩ := probes.entry_of_target nodeMember
  rwa [probes.entry_unique member otherMember (same.symm.trans there.symm)]

/-- What was not added shows an instruction at its own address. -/
theorem Probed.ahead_kept {entry : Probed} {first : Option Instr} (sound : entry.Sound nodes)
    (kept : entry.added = false)
    (ahead : entry.ahead first = some x) : x ∈ nodes ∧ x.ptr = entry.node.ptr := by
  obtain ⟨node, role⟩ := entry
  cases role with
  | original =>
    obtain rfl := Option.some.inj ahead
    exact ⟨sound, rfl⟩
  | replaced ret =>
    obtain rfl := Option.some.inj ahead
    exact ⟨sound.2.1, by rw [sound.1]⟩
  | _ => simp [Probed.added] at kept

/-- The depth a node of a probed list settles to. -/
def settleOf (list : List Probed) (hookArg : Option UInt64) (node : Instr) (depth : Nat) : Nat :=
  ((list.find? fun entry => entry.node = node).map fun entry => entry.settle hookArg depth).getD depth

theorem Probes.settleOf_eq (probes : Probes platform onExitHook hookArg nodes enter exits)
    (member : entry ∈ entries enter exits) (depth : Nat) :
    settleOf (entries enter exits) hookArg entry.node depth = entry.settle hookArg depth := by
  rw [settleOf, probes.find member, Option.map_some, Option.getD_some]

section Laws

variable (probes : Probes platform hooks.onExitHook hooks.hookArg nodes (enterNodes hooks brk)
  (exitEntries hooks brk nodes))

include probes

private theorem settle_shown (shown : erase (probedNodes hooks brk nodes) node = some x) (depth : Nat) :
    settleOf (probedNodes hooks brk nodes) hooks.hookArg node depth = depth := by
  obtain ⟨entry, member, rfl, shows⟩ := Probes.of_erase shown
  rw [probedNodes_eq, probes.settleOf_eq member]
  rcases probes.shown_original member shows with rfl | ⟨ret, -⟩
  · exact Probed.settle_kept rfl _ _
  · exact Probed.settle_of_opcode (by rw [ret]; decide) _ _

private theorem settle_starts (apart : ClausesApart clauses nodes (probedNodes hooks brk nodes))
    (opens : opensAt clauses ((probedNodes hooks brk nodes).map Probed.node) node depth)
    (ahead : Probes.aheadOf (probedNodes hooks brk nodes) nodes.head? node = some x) :
    opensAt clauses nodes x (settleOf (probedNodes hooks brk nodes) hooks.hookArg node depth) := by
  obtain ⟨entry, member, rfl, shows⟩ := Probes.of_aheadOf ahead
  rw [probedNodes_eq, probes.settleOf_eq member]
  rcases opens with ⟨first, rfl⟩ | ⟨-, clause, listed, opens⟩
  · rw [List.head?_map] at first
    obtain ⟨other, head, same⟩ := Option.map_eq_some_iff.mp first
    obtain rfl := probes.entry_unique (List.mem_of_mem_head? head) member (by rw [same])
    exact .inl ⟨(probes.head_ahead other head).symm.trans shows, Probed.settle_zero ..⟩
  · have kept := probes.opens_kept apart member listed opens
    obtain ⟨inside, same⟩ := Probed.ahead_kept (probes.sound entry member) kept shows
    rw [Probed.settle_kept kept]
    exact .inr ⟨inside, clause, listed, same ▸ opens⟩

private theorem settle_begins (opens : opensAt clauses nodes x depth) :
    ∃ node before, opensAt clauses ((probedNodes hooks brk nodes).map Probed.node) node before ∧
      Probes.aheadOf (probedNodes hooks brk nodes) nodes.head? node = some x ∧
      settleOf (probedNodes hooks brk nodes) hooks.hookArg node before = depth := by
  rcases opens with ⟨first, rfl⟩ | ⟨inside, clause, listed, opens⟩
  · obtain ⟨entry, member, head⟩ := probes.head_exists first
    refine ⟨entry.node, 0, .inl ⟨?_, rfl⟩, ?_, ?_⟩
    · rw [probedNodes_eq, List.head?_map, head, Option.map_some]
    · rw [probedNodes_eq, probes.aheadOf_eq _ member, probes.head_ahead entry head, first]
    · rw [probedNodes_eq, probes.settleOf_eq member, Probed.settle_zero]
  · obtain ⟨entry, member, same, ahead, kept⟩ := probes.entry_of_target inside
    refine ⟨entry.node, depth, .inr ⟨List.mem_map_of_mem member, clause, listed, same ▸ opens⟩, ?_, ?_⟩
    · rw [probedNodes_eq, probes.aheadOf_eq _ member, ahead]
    · rw [probedNodes_eq, probes.settleOf_eq member, Probed.settle_kept kept]

private theorem settle_hidden (hidden : erase (probedNodes hooks brk nodes) node = none)
    (step : (flowGraph platform ((probedNodes hooks brk nodes).map Probed.node)).step node other) (depth : Nat) :
    settleOf (probedNodes hooks brk nodes) hooks.hookArg other (effects.after node depth) =
      settleOf (probedNodes hooks brk nodes) hooks.hookArg node depth := by
  obtain ⟨entry, member, rfl⟩ := List.mem_map.mp step.1
  rw [probedNodes_eq] at hidden step member ⊢
  rw [probes.erase_eq member] at hidden
  obtain ⟨before, after, split⟩ := List.append_of_mem member
  obtain ⟨next, rest, rfl, rfl⟩ := (probes.step_hidden split hidden).mp step
  have chain := probed_settles effects brk nodes
  rw [probedNodes_eq, split] at chain
  have nextMember : next ∈ entries (enterNodes hooks brk) (exitEntries hooks brk nodes) := by simp [split]
  rw [probes.settleOf_eq member, probes.settleOf_eq nextMember]
  exact (List.isChain_append_cons_cons.mp chain).2.1 hidden depth

private theorem settle_step (shown : erase (probedNodes hooks brk nodes) node = some x)
    (step : (flowGraph platform ((probedNodes hooks brk nodes).map Probed.node)).step node other) (depth : Nat) :
    settleOf (probedNodes hooks brk nodes) hooks.hookArg other (effects.after node depth) = effects.after x depth := by
  obtain ⟨entry, member, rfl, shows⟩ := Probes.of_erase shown
  rw [probedNodes_eq] at member step ⊢
  rcases probes.shown_original member shows with rfl | ⟨ret, -⟩
  · obtain ⟨next, nextMember, rfl, kept⟩ := probes.step_original member step
    rw [probes.settleOf_eq nextMember, Probed.settle_kept kept]
  · exact absurd step (Probes.no_step_ret ret)

/-- The probes erased, with the depth of the operand stack at every node. -/
def depthErasure (effects : StackEffects hooks) (apart : ClausesApart clauses nodes (probedNodes hooks brk nodes)) :
    Erasure (depthGraph platform effects clauses nodes)
      (depthGraph platform effects clauses ((probedNodes hooks brk nodes).map Probed.node)) :=
  probes.erasure.weighted (settleOf (probedNodes hooks brk nodes) hooks.hookArg)
    (fun _ _ depth shown => settle_shown probes shown depth)
    (fun _ _ _ opens ahead => settle_starts probes apart opens ahead)
    (fun _ _ opens => settle_begins probes opens)
    (fun _ _ depth hidden step => settle_hidden probes hidden step depth)
    (fun _ _ _ depth shown step => settle_step probes shown step depth)

end Laws

end Erasure

end ClrProfiling
