import ClrProfiling.IL.Listing
import ClrProfiling.IL.Probe

/-! The instruction list behind the probes, and what each of its nodes is to the list
in front of them. -/

namespace ClrProfiling

open LinkedRing Word

/-- What a node of the instrumented list is to the original one; `ret` is the RET a node
was added for. -/
inductive Role where
  | original
  | enterProbe
  | replaced (ret : Instr)
  | exitProbe (ret : Instr)
  | returns (ret : Instr)
deriving DecidableEq, Repr

structure Probed where
  node : Instr
  role : Role
deriving DecidableEq, Repr

section Lists

/-- The nodes of one probe. -/
def probeNodes (brk : Ptr) (hookMethod : UInt32) : (hookArg : Option UInt64) → List Instr
  | none => [⟨brk, CEE_CALL, hookMethod.toNat⟩]
  | some argument => [⟨brk, CEE_LDC_I4, argument.toNat⟩, ⟨brk + 1, CEE_CALL, hookMethod.toNat⟩]

/-- The nodes a list is turned into by the exit probes. -/
def exitProbed (onExitHook : UInt32) (hookArg : Option UInt64) : (brk : Ptr) → List Instr → List Probed
  | _, [] => []
  | brk, node :: rest =>
    if node.opcode = CEE_RET then
      let probe := probeNodes (brk + 1) onExitHook hookArg
      ⟨{ node with opcode := CEE_NOP }, .replaced node⟩ ::
        (probe.map (⟨·, .exitProbe node⟩) ++
          ⟨⟨brk, CEE_RET, 0⟩, .returns node⟩ :: exitProbed onExitHook hookArg (brk + 1 + probe.length) rest)
    else ⟨node, .original⟩ :: exitProbed onExitHook hookArg brk rest

/-- The nodes of the enter probe, if there is one. -/
def enterNodes (hooks : Hooks) (brk : Ptr) : List Instr :=
  if hooks.onEnterHook ≠ mdTokenNil then probeNodes brk hooks.onEnterHook hooks.hookArg else []

/-- The list behind the probes. -/
def probedNodes (hooks : Hooks) (brk : Ptr) (nodes : List Instr) : List Probed :=
  (enterNodes hooks brk).map (⟨·, .enterProbe⟩) ++
    if hooks.onExitHook ≠ mdTokenNil then
      exitProbed hooks.onExitHook hooks.hookArg (brk + (enterNodes hooks brk).length) nodes
    else nodes.map (⟨·, .original⟩)

/-- The opcodes of the nodes added for a list, in the order they are inserted. -/
def exitOpcodes (hookArg : Option UInt64) (nodes : List Instr) : List Nat :=
  nodes.flatMap fun node =>
    if node.opcode = CEE_RET then CEE_RET :: (probeNodes m_IL 0 hookArg).map Instr.opcode else []

def probeOpcodes (hooks : Hooks) (nodes : List Instr) : List Nat :=
  (enterNodes hooks m_IL).map Instr.opcode ++
    if hooks.onExitHook ≠ mdTokenNil then exitOpcodes hooks.hookArg nodes else []

theorem probeNodes_opcodes (brk : Ptr) (hookMethod : UInt32) (hookArg : Option UInt64) :
    (probeNodes brk hookMethod hookArg).map Instr.opcode = (probeNodes m_IL 0 hookArg).map Instr.opcode := by
  cases hookArg <;> rfl

theorem probeNodes_ne_ret (member : node ∈ probeNodes brk hookMethod hookArg) : node.opcode ≠ CEE_RET := by
  cases hookArg with
  | none =>
    obtain rfl := List.mem_singleton.mp member
    exact show CEE_CALL ≠ CEE_RET by decide
  | some argument =>
    rcases List.mem_cons.mp member with rfl | last
    · exact show CEE_LDC_I4 ≠ CEE_RET by decide
    · obtain rfl := List.mem_singleton.mp last
      exact show CEE_CALL ≠ CEE_RET by decide

theorem enterNodes_ne_ret {hooks : Hooks} (member : node ∈ enterNodes hooks brk) : node.opcode ≠ CEE_RET := by
  unfold enterNodes at member
  split at member
  · exact probeNodes_ne_ret member
  · simp at member

theorem enterNodes_opcodes (hooks : Hooks) (brk : Ptr) :
    (enterNodes hooks brk).map Instr.opcode = (enterNodes hooks m_IL).map Instr.opcode := by
  unfold enterNodes
  split
  · rw [probeNodes_opcodes, ← probeNodes_opcodes m_IL hooks.onEnterHook]
  · rfl

theorem exitProbed_plain (onExitHook : UInt32) (hookArg : Option UInt64) (brk : Ptr) {before : List Instr}
    (plain : ∀ node ∈ before, node.opcode ≠ CEE_RET) (after : List Instr) :
    exitProbed onExitHook hookArg brk (before ++ after) =
      before.map (⟨·, .original⟩) ++ exitProbed onExitHook hookArg brk after := by
  induction before with
  | nil => rfl
  | cons node rest ih =>
    obtain ⟨first, others⟩ := List.forall_mem_cons.mp plain
    rw [List.cons_append, exitProbed, if_neg first, ih others]
    rfl

theorem exitOpcodes_append (hookArg : Option UInt64) (before after : List Instr) :
    exitOpcodes hookArg (before ++ after) = exitOpcodes hookArg before ++ exitOpcodes hookArg after := by
  simp [exitOpcodes]

theorem exitOpcodes_plain {hookArg : Option UInt64} {nodes : List Instr}
    (plain : ∀ node ∈ nodes, node.opcode ≠ CEE_RET) :
    exitOpcodes hookArg nodes = [] :=
  List.flatMap_eq_nil_iff.mpr fun node member => if_neg (plain node member)

end Lists

namespace ILRewriter

variable {platform : Platform} {s : ILRewriter}

private theorem grown_setOpcode (platform : Platform) (s : ILRewriter) (p : Ptr) (opcode : Nat) :
    Grown platform s (s.setOpcode p opcode) [] :=
  ⟨rfl, rfl, rfl, rfl, rfl, rfl⟩

private theorem Holds.insertNew (platform : Platform) (holds : s.Holds (before ++ after)) (opcode operand : Nat) :
    let s' := ((s.NewILInstr.2.setOpcode s.brk opcode).setOperand s.brk operand).InsertBefore platform
      (rightOf m_IL (after.map Instr.ptr)) s.brk
    s'.Holds (before ++ [⟨s.brk, opcode, operand⟩] ++ after) ∧ Grown platform s s' [opcode] := by
  intro s'
  have same : s' = (s.freshNode opcode operand).InsertBefore platform (rightOf m_IL (after.map Instr.ptr)) s.brk := by
    rw [← freshNode_eq]
  rw [same, ← List.append_cons]
  exact ⟨holds.insertBefore platform opcode operand, grown_insertBefore platform s opcode operand _⟩

/-- A probe stands in front of the node behind a cut. -/
theorem Holds.addProbe (platform : Platform) (holds : s.Holds (before ++ after)) (hookMethod : UInt32)
    (hookArg : Option UInt64) :
    (s.AddProbe platform hookMethod hookArg (rightOf m_IL (after.map Instr.ptr))).Holds
        (before ++ probeNodes s.brk hookMethod hookArg ++ after) ∧
      Grown platform s (s.AddProbe platform hookMethod hookArg (rightOf m_IL (after.map Instr.ptr)))
        ((probeNodes s.brk hookMethod hookArg).map Instr.opcode) := by
  cases hookArg with
  | none => exact holds.insertNew platform CEE_CALL hookMethod.toNat
  | some argument =>
    obtain ⟨first, grown⟩ := holds.insertNew platform CEE_LDC_I4 argument.toNat
    obtain ⟨second, grown'⟩ := first.insertNew platform CEE_CALL hookMethod.toNat
    rw [List.append_assoc before] at second
    exact ⟨second, grown.trans grown'⟩

private theorem Holds.exitProbeAt {node : Instr} (platform : Platform) (holds : s.Holds (before ++ node :: after))
    (ret : node.opcode = CEE_RET) (onExitHook : UInt32) (hookArg : Option UInt64) (added : Bool) :
    ∃ s', ExitProbeAt platform onExitHook hookArg (s, added) node.ptr = .ok ((s', true), s.brk) ∧
      s'.Holds ((before ++ { node with opcode := CEE_NOP } :: probeNodes (s.brk + 1) onExitHook hookArg ++
        [⟨s.brk, CEE_RET, 0⟩]) ++ after) ∧
      Grown platform s s' (CEE_RET :: (probeNodes (s.brk + 1) onExitHook hookArg).map Instr.opcode) := by
  have opcode : s.m_opcode node.ptr = CEE_RET := (holds.opcode node (by simp)).trans ret
  have nop := holds.setOpcode CEE_NOP
  rw [List.append_cons] at nop
  have newRet := nop.insertAfter platform CEE_RET 0
  have grown := (grown_setOpcode platform s node.ptr CEE_NOP).trans
    (grown_insertAfter platform (s.setOpcode node.ptr CEE_NOP) CEE_RET 0 node.ptr)
  rw [← freshNode_zero_eq] at newRet grown
  rw [List.map_append, List.map_singleton, leftOf_append] at newRet
  obtain ⟨held, grown'⟩ := newRet.addProbe platform onExitHook hookArg
  rw [List.append_cons, List.append_assoc before] at held
  refine ⟨_, ?_, held, grown.trans grown'⟩
  rw [ExitProbeAt, if_pos opcode]
  rfl

/-- The exit loop over the nodes from the cursor on. -/
private theorem exit_walk (rest : List Instr) (holds : s.Holds (before ++ rest)) (onExitHook : UInt32)
    (hookArg : Option UInt64) (added : Bool) (enough : rest.length ≤ fuel) :
    ∃ s', walk (fun (loop : ILRewriter × Bool) => loop.1.links.next) m_IL .outOfFuel
        (ExitProbeAt platform onExitHook hookArg) fuel (s, added) (rightOf m_IL (rest.map Instr.ptr)) =
          .ok (s', added || rest.any fun node => node.opcode == CEE_RET) ∧
      s'.Holds (before ++ (exitProbed onExitHook hookArg s.brk rest).map Probed.node) ∧
      Grown platform s s' (exitOpcodes hookArg rest) := by
  induction rest generalizing s before added fuel with
  | nil => exact ⟨s, by simpa using walk_hub .., by simpa [exitProbed] using holds, .refl platform s⟩
  | cons node rest ih =>
    obtain ⟨fuel, rfl⟩ : ∃ less, fuel = less + 1 := by
      rw [List.length_cons] at enough
      exact ⟨fuel - 1, by omega⟩
    have apart : node.ptr ≠ m_IL := holds.ptr_ne_hub (by simp)
    have shorter : rest.length ≤ fuel := by simpa using enough
    rw [List.map_cons, rightOf_cons, walk, if_neg apart, exitProbed]
    by_cases ret : node.opcode = CEE_RET
    · obtain ⟨middle, turn, held, grown⟩ := holds.exitProbeAt platform ret onExitHook hookArg added
      have behind := held.ring
      rw [List.map_append, List.map_append, List.map_singleton, List.append_assoc] at behind
      have onward : middle.links.next s.brk = rightOf m_IL (rest.map Instr.ptr) := behind.next_eq
      obtain ⟨s', run, done, grown'⟩ := ih held true shorter
      have brk : middle.brk = s.brk + 1 + (probeNodes (s.brk + 1) onExitHook hookArg).length := by
        rw [grown.brk, List.length_cons, List.length_map]
        exact Nat.add_right_comm s.brk _ 1
      rw [brk] at done
      refine ⟨s', ?_, ?_, ?_⟩
      · rw [turn]
        simp only [onward, run, List.any_cons, ret, beq_self_eq_true, Bool.true_or, Bool.or_true]
      · rw [if_pos ret]
        simpa [Function.comp_def] using done
      · have opcodes : exitOpcodes hookArg (node :: rest) =
            (CEE_RET :: (probeNodes (s.brk + 1) onExitHook hookArg).map Instr.opcode) ++ exitOpcodes hookArg rest := by
          rw [exitOpcodes, List.flatMap_cons, if_pos ret, probeNodes_opcodes (s.brk + 1)]
          rfl
        rw [opcodes]
        exact grown.trans grown'
    · have opcode : s.m_opcode node.ptr ≠ CEE_RET := by
        rw [holds.opcode node (by simp)]
        exact ret
      have onward : s.links.next node.ptr = rightOf m_IL (rest.map Instr.ptr) := holds.next_eq
      obtain ⟨s', run, done, grown⟩ := ih holds.past added shorter
      refine ⟨s', ?_, ?_, ?_⟩
      · rw [ExitProbeAt, if_neg opcode]
        simp only [onward, run, List.any_cons, beq_false_of_ne ret, Bool.false_or]
      · rw [if_neg ret]
        simpa using done
      · rw [exitOpcodes, List.flatMap_cons, if_neg ret, List.nil_append]
        exact grown

private theorem Holds.enter (platform : Platform) (holds : s.Holds nodes) (hooks : Hooks) :
    ∃ s', (if hooks.onEnterHook ≠ mdTokenNil then s.AddEnterProbe platform hooks.onEnterHook hooks.hookArg else s) = s' ∧
      s'.Holds (enterNodes hooks s.brk ++ nodes) ∧ Grown platform s s' ((enterNodes hooks s.brk).map Instr.opcode) := by
  unfold enterNodes
  split
  · have whole : s.Holds ([] ++ nodes) := holds
    have first : s.m_pNext m_IL = rightOf m_IL (nodes.map Instr.ptr) := holds.ring.next_hub
    rw [AddEnterProbe, first]
    exact ⟨_, rfl, whole.addProbe platform hooks.onEnterHook hooks.hookArg⟩
  · exact ⟨s, rfl, holds, .refl platform s⟩

private theorem AddExitProbe_eq (platform : Platform) (holds : s.Holds nodes) (onExitHook : UInt32)
    (hookArg : Option UInt64) :
    ∃ s', s.AddExitProbe platform onExitHook hookArg =
        (if (nodes.any fun node => node.opcode == CEE_RET) = true then .ok s' else .error .E_FAIL) ∧
      s'.Holds ((exitProbed onExitHook hookArg s.brk nodes).map Probed.node) ∧
      Grown platform s s' (exitOpcodes hookArg nodes) := by
  have whole : s.Holds ([] ++ nodes) := holds
  have room := holds.length_lt
  obtain ⟨s', run, held, grown⟩ :=
    exit_walk nodes whole onExitHook hookArg false (show nodes.length ≤ s.brk by omega)
  have first : s.links.next m_IL = rightOf m_IL (nodes.map Instr.ptr) := holds.ring.next_hub
  refine ⟨s', ?_, held, grown⟩
  rw [AddExitProbe, first, run, Outcome.ok_bind, Bool.false_or]
  rfl

/-- What the probes leave behind: the probed list, and nothing else but more stack. -/
theorem AddProbes_eq_ok {hooks : Hooks} (holds : s.Holds nodes) (run : s.AddProbes platform hooks = .ok s') :
    s'.Holds ((probedNodes hooks s.brk nodes).map Probed.node) ∧ Grown platform s s' (probeOpcodes hooks nodes) := by
  obtain ⟨entered, enter, held, grown⟩ := holds.enter platform hooks
  have nodes_eq (role : Role) (list : List Instr) : (list.map (⟨·, role⟩ : Instr → Probed)).map Probed.node = list := by
    simp [Function.comp_def]
  have plain : ∀ node ∈ enterNodes hooks s.brk, node.opcode ≠ CEE_RET := fun node => enterNodes_ne_ret
  rw [AddProbes, enter] at run
  rw [probedNodes, probeOpcodes, List.map_append, nodes_eq, ← enterNodes_opcodes hooks s.brk]
  by_cases exit : hooks.onExitHook ≠ mdTokenNil
  · rw [if_pos exit] at run ⊢
    rw [if_pos exit]
    obtain ⟨exited, loop, held', grown'⟩ := AddExitProbe_eq platform held hooks.onExitHook hooks.hookArg
    have brk : entered.brk = s.brk + (enterNodes hooks s.brk).length := by rw [grown.brk, List.length_map]
    rw [exitProbed_plain _ _ _ plain, List.map_append, nodes_eq, brk] at held'
    rw [exitOpcodes_append, exitOpcodes_plain plain, List.nil_append] at grown'
    rw [loop] at run
    split at run
    · cases run
      exact ⟨held', grown.trans grown'⟩
    · cases run
  · rw [if_neg exit] at run ⊢
    rw [if_neg exit, nodes_eq, List.append_nil]
    cases run
    exact ⟨held, grown⟩

/-- The probes fail where a RET is missing and an exit probe is asked for, and nowhere else. -/
theorem AddProbes_succeeds (hooks : Hooks) (holds : s.Holds nodes)
    (ret : hooks.onExitHook ≠ mdTokenNil → ∃ node ∈ nodes, node.opcode = CEE_RET) :
    ∃ s', s.AddProbes platform hooks = .ok s' := by
  obtain ⟨entered, enter, held, -⟩ := holds.enter platform hooks
  rw [AddProbes, enter]
  by_cases exit : hooks.onExitHook ≠ mdTokenNil
  · obtain ⟨node, member, opcode⟩ := ret exit
    obtain ⟨exited, loop, -, -⟩ := AddExitProbe_eq platform held hooks.onExitHook hooks.hookArg
    refine ⟨exited, ?_⟩
    rw [if_pos exit, loop, if_pos]
    exact List.any_eq_true.mpr ⟨node, List.mem_append_right _ member, by simpa using opcode⟩
  · exact ⟨entered, by rw [if_neg exit]; rfl⟩

theorem AddProbes_refuses {hooks : Hooks} {failure : Failure} (holds : s.Holds nodes)
    (run : s.AddProbes platform hooks = .error failure) : failure = .E_FAIL := by
  obtain ⟨entered, enter, held, -⟩ := holds.enter platform hooks
  rw [AddProbes, enter] at run
  split at run
  · obtain ⟨exited, loop, -, -⟩ := AddExitProbe_eq platform held hooks.onExitHook hooks.hookArg
    rw [loop] at run
    split at run <;> cases run
    rfl
  · cases run

/-- An exit probe is added in front of a RET. -/
theorem AddProbes_ret {hooks : Hooks} (holds : s.Holds nodes) (exit : hooks.onExitHook ≠ mdTokenNil)
    (run : s.AddProbes platform hooks = .ok s') : ∃ node ∈ nodes, node.opcode = CEE_RET := by
  obtain ⟨entered, enter, held, -⟩ := holds.enter platform hooks
  obtain ⟨exited, loop, -, -⟩ := AddExitProbe_eq platform held hooks.onExitHook hooks.hookArg
  rw [AddProbes, enter, if_pos exit, loop] at run
  split at run
  · rename_i found
    obtain ⟨node, member, opcode⟩ := List.any_eq_true.mp found
    have ret : node.opcode = CEE_RET := by simpa using opcode
    rcases List.mem_append.mp member with inEnter | listed
    · exact absurd ret (enterNodes_ne_ret inEnter)
    · exact ⟨node, listed, ret⟩
  · cases run

end ILRewriter

end ClrProfiling
