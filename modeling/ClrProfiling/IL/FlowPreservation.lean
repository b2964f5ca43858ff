import ClrProfiling.IL.ProbedFlow
import ClrProfiling.IL.Edits

/-! Instrumentation preserves control flow: the paths of a body with its probes are those
of the body, the enter probe opens each of them and the exit probe stands in front of each RET. -/

namespace ClrProfiling

open LinkedRing FlowGraph ILRewriter

namespace Probes

variable {platform : Platform} {onExitHook : UInt32} {hookArg : Option UInt64} {nodes enter : List Instr}
  {exits : List Probed}

/-- Nothing jumps to a node that was added. -/
theorem not_target (probes : Probes platform onExitHook hookArg nodes enter exits)
    (member : entry ∈ entries enter exits)
    (added : entry.added = true) :
    ∀ other ∈ (entries enter exits).map Probed.node, other.isBranch platform → other.operand ≠ entry.node.ptr := by
  intro other listed branch target
  obtain ⟨source, sourceMember, rfl⟩ := List.mem_map.mp listed
  have original := (probes.sound source sourceMember).original_of_branch branch
  rw [original] at sourceMember
  have inList := (probes.targets _ (probes.original_mem sourceMember) branch).resolve_right fun outside =>
    outside (target ▸ List.mem_map_of_mem (List.mem_map_of_mem member))
  obtain ⟨node, inside, same⟩ := List.mem_map.mp inList
  obtain ⟨stands, standsMember, standsPtr, -, kept⟩ := probes.entry_of_target inside
  obtain rfl := probes.entry_unique member standsMember (by rw [← target, ← same, standsPtr])
  rw [added] at kept
  cases kept

/-- Nodes that follow one another, all but the first of them added, are entered one from the other. -/
theorem corridor (probes : Probes platform onExitHook hookArg nodes enter exits) (before segment : List Probed)
    (split : entries enter exits = before ++ (segment ++ after))
    (external : ∀ entry ∈ segment, entry.node.isArgument platform = false)
    (added : ∀ entry ∈ segment.tail, entry.added = true) :
    (segment.map Probed.node).IsChain (flowGraph platform ((entries enter exits).map Probed.node)).EnteredFrom := by
  induction segment generalizing before with
  | nil => exact .nil
  | cons entry rest ih =>
    obtain ⟨here, external⟩ := List.forall_mem_cons.mp external
    cases rest with
    | nil => exact List.isChain_singleton _
    | cons next rest =>
      have later : entries enter exits = (before ++ [entry]) ++ (next :: rest ++ after) := by simpa using split
      refine List.isChain_cons_cons.mpr
        ⟨?_, ih _ later external fun other member => added other (List.mem_cons_of_mem _ member)⟩
      have whole : (entries enter exits).map Probed.node =
          before.map Probed.node ++ entry.node :: next.node :: (rest ++ after).map Probed.node := by
        simp [split]
      have nodup := probes.nodes_nodup
      have fresh := probes.not_target (show next ∈ entries enter exits by simp [split])
        (added next (List.mem_cons_self ..))
      rw [whole] at nodup fresh ⊢
      exact enteredFrom_cut nodup here fresh

/-- Hidden nodes that follow one another leave one to the other. -/
theorem corridor_leaves (probes : Probes platform onExitHook hookArg nodes enter exits) (before segment : List Probed)
    (split : entries enter exits = before ++ (segment ++ after)) (hidden : ∀ entry ∈ segment, entry.shown = none) :
    (segment.map Probed.node).IsChain (flowGraph platform ((entries enter exits).map Probed.node)).LeavesTo := by
  induction segment generalizing before with
  | nil => exact .nil
  | cons entry rest ih =>
    obtain ⟨here, hidden⟩ := List.forall_mem_cons.mp hidden
    cases rest with
    | nil => exact List.isChain_singleton _
    | cons next rest =>
      have later : entries enter exits = (before ++ [entry]) ++ (next :: rest ++ after) := by simpa using split
      refine List.isChain_cons_cons.mpr ⟨fun other step => ?_, ih _ later hidden⟩
      obtain ⟨found, behind, same, rfl⟩ := (probes.step_hidden split here).mp step
      obtain ⟨rfl, -⟩ := List.cons_eq_cons.mp same
      rfl

/-- The enter probe opens every path and is not entered again. -/
theorem opens_path (probes : Probes platform onExitHook hookArg nodes enter exits) (some : enter ≠ [])
    (path : (flowGraph platform ((entries enter exits).map Probed.node)).IsPath steps) :
    steps <+: enter ∨ ∃ rest, steps = enter ++ rest ∧ ∀ node ∈ rest, node ∉ enter := by
  obtain ⟨entry, corridor, rfl⟩ := List.exists_cons_of_ne_nil some
  have nodes_eq : ((entry :: corridor).map (⟨·, .enterProbe⟩ : Instr → Probed)).map Probed.node =
    entry :: corridor := by
    simp [Function.comp_def]
  have whole : (entries (entry :: corridor) exits).map Probed.node = entry :: (corridor ++ exits.map Probed.node) := by
    rw [entries, List.map_append, nodes_eq, List.cons_append]
  have external : ∀ found ∈ (entry :: corridor).map (⟨·, .enterProbe⟩ : Instr → Probed),
      found.node.isArgument platform = false := by
    intro found member
    obtain ⟨node, listed, rfl⟩ := List.mem_map.mp member
    exact external_of_hook (by rcases probes.opens node listed with opcode | opcode <;> simp [hookOpcodes, opcode])
  have into := probes.corridor [] ((entry :: corridor).map (⟨·, .enterProbe⟩)) rfl external
    (by simp [Probed.added])
  have out := probes.corridor_leaves [] ((entry :: corridor).map (⟨·, .enterProbe⟩)) rfl
    (by simp [Probed.shown])
  have fresh := probes.not_target
    (show (⟨entry, .enterProbe⟩ : Probed) ∈ entries (entry :: corridor) exits by simp [entries]) rfl
  have nodup := probes.nodes_nodup
  rw [nodes_eq] at into out
  rw [whole] at into out path fresh nodup
  refine Graph.IsPath.opens corridor (fun node start => ?_) (unentered_head nodup fresh) into out path
  exact (Option.some.inj start).symm

/-- The nodes in front of a new RET on a path are its NOP and its probe. -/
theorem returns_path (probes : Probes platform onExitHook hookArg nodes enter exits)
    (member : ⟨node, .returns ret⟩ ∈ entries enter exits)
    (path : (flowGraph platform ((entries enter exits).map Probed.node)).IsPath (steps ++ [node])) :
    ∃ brk, { ret with opcode := CEE_NOP } :: probeNodes brk onExitHook hookArg <:+ steps := by
  obtain inEnter | inExits := List.mem_append.mp member
  · simp at inEnter
  · obtain ⟨before, after, brk, split⟩ := probes.expanded.cut_returns inExits
    have whole : entries enter exits = (enter.map (⟨·, .enterProbe⟩) ++ before) ++
        (((⟨{ ret with opcode := CEE_NOP }, .replaced ret⟩ : Probed) ::
          (probeNodes brk onExitHook hookArg).map (⟨·, .exitProbe ret⟩) ++ [⟨node, .returns ret⟩]) ++ after) := by
      simp [entries, split]
    have sound := probes.sound _ member
    have chain := probes.corridor _ _ whole ?_ ?_
    · rw [List.map_append, List.map_cons, List.map_map] at chain
      have through := path.through (probeNodes brk onExitHook hookArg ++ [node])
        (by simpa [Function.comp_def] using chain)
        (by simp)
      obtain ⟨front, same⟩ := through
      refine ⟨brk, front, ?_⟩
      rw [← List.cons_append, ← List.append_assoc] at same
      exact List.append_cancel_right same
    · intro entry inSegment
      apply external_of_hook
      rcases List.mem_append.mp inSegment with early | last
      · rcases List.mem_cons.mp early with rfl | inProbe
        · simp [hookOpcodes]
        · obtain ⟨probe, listed, rfl⟩ := List.mem_map.mp inProbe
          rcases probeNodes_opcode listed with opcode | opcode <;> simp [hookOpcodes, opcode]
      · obtain rfl := List.mem_singleton.mp last
        simp [hookOpcodes, sound.1]
    · intro entry inSegment
      rcases List.mem_append.mp inSegment with inProbe | last
      · obtain ⟨probe, -, rfl⟩ := List.mem_map.mp inProbe
        rfl
      · obtain rfl := List.mem_singleton.mp last
        rfl

end Probes

section Preservation

variable {platform : Platform} {s s' : ILRewriter} {hooks : Hooks} {nodes : List Instr} {brk : Ptr}

/-- The list behind the enter probe. -/
def exitEntries (hooks : Hooks) (brk : Ptr) (nodes : List Instr) : List Probed :=
  if hooks.onExitHook ≠ mdTokenNil then
    exitProbed hooks.onExitHook hooks.hookArg (brk + (enterNodes hooks brk).length) nodes
  else nodes.map (⟨·, .original⟩)

theorem probedNodes_eq (hooks : Hooks) (brk : Ptr) (nodes : List Instr) :
    probedNodes hooks brk nodes = entries (enterNodes hooks brk) (exitEntries hooks brk nodes) := rfl

theorem expanded_exitEntries (hooks : Hooks) (brk : Ptr) (nodes : List Instr) :
    Expanded hooks.onExitHook hooks.hookArg nodes (exitEntries hooks brk nodes) := by
  unfold exitEntries
  split
  · exact expanded_exitProbed _ nodes
  · exact expanded_original nodes

theorem enterNodes_opcode (member : node ∈ enterNodes hooks brk) :
    node.opcode = CEE_LDC_I4 ∨ node.opcode = CEE_CALL := by
  unfold enterNodes at member
  split at member
  · exact probeNodes_opcode member
  · simp at member

theorem enterNodes_ne_nil (enter : hooks.onEnterHook ≠ mdTokenNil) (brk : Ptr) : enterNodes hooks brk ≠ [] := by
  rw [enterNodes, if_pos enter]
  cases hooks.hookArg <;> simp [probeNodes]

/-- The list with its probes, as the probes of a list that Import has built. -/
theorem probes_of_added (holds : s.Holds nodes) (added : s'.Holds ((probedNodes hooks s.brk nodes).map Probed.node))
    (blocked : WellBlocked platform nodes)
    (targets : ∀ node ∈ nodes, node.isBranch platform → node.operand ∈ nodes.map Instr.ptr ∨
      node.operand ∉ ((probedNodes hooks s.brk nodes).map Probed.node).map Instr.ptr) :
    Probes platform hooks.onExitHook hooks.hookArg nodes (enterNodes hooks s.brk) (exitEntries hooks s.brk nodes) where
  opens := fun node member => enterNodes_opcode member
  expanded := expanded_exitEntries hooks s.brk nodes
  nodup := added.ptrs_nodup
  source := holds.ptrs_nodup
  targets := targets
  first := by
    intro node member
    simpa [Instr.isArgument] using blocked.head node member

theorem exitProbed_original (brk : Ptr) (member : ⟨node, .original⟩ ∈ exitProbed onExitHook hookArg brk nodes) :
    node.opcode ≠ CEE_RET := by
  induction nodes generalizing brk with
  | nil => simp [exitProbed] at member
  | cons other rest ih =>
    rw [exitProbed] at member
    split at member
    · exact ih _ (by simpa using member)
    · rename_i plain
      rcases List.mem_cons.mp member with same | later
      · cases same
        exact plain
      · exact ih _ later

/-- With an exit probe every RET is a new one. -/
theorem ret_returns (exit : hooks.onExitHook ≠ mdTokenNil)
    (probes : Probes platform hooks.onExitHook hooks.hookArg nodes (enterNodes hooks brk) (exitEntries hooks brk nodes))
    (member : node ∈ (probedNodes hooks brk nodes).map Probed.node) (ret : node.opcode = CEE_RET) :
    ∃ original ∈ nodes, original.opcode = CEE_RET ∧ ⟨node, .returns original⟩ ∈ probedNodes hooks brk nodes := by
  obtain ⟨⟨node, role⟩, listed, rfl⟩ := List.mem_map.mp member
  have sound := probes.sound _ listed
  dsimp only at ret
  cases role with
  | original =>
    rw [probedNodes, if_pos exit] at listed
    exact absurd ret (exitProbed_original _ (by simpa using listed))
  | enterProbe => rcases sound with opcode | opcode <;> exact absurd (opcode.symm.trans ret) (by decide)
  | replaced original =>
    have nop : node.opcode = CEE_NOP := by rw [sound.1]
    exact absurd (nop.symm.trans ret) (by decide)
  | exitProbe original => rcases sound.1 with opcode | opcode <;> exact absurd (opcode.symm.trans ret) (by decide)
  | returns original => exact ⟨original, sound.2.1, sound.2.2, listed⟩

/-- Instrumentation preserves the control flow of a list: erasing probes and NOPs from the
paths of the probed list gives the paths of the list, all of them; every path goes through
the enter probe first and never again; every RET is reached through its NOP and its probe. -/
structure FlowPreserved (platform : Platform) (hooks : Hooks) (brk : Ptr) (nodes : List Instr) : Prop where
  erases : ∀ path, (flowGraph platform ((probedNodes hooks brk nodes).map Probed.node)).IsPath path →
    (flowGraph platform nodes).IsPath (path.filterMap (erase (probedNodes hooks brk nodes)))
  lifts : ∀ path, (flowGraph platform nodes).IsPath path →
    ∃ path', (flowGraph platform ((probedNodes hooks brk nodes).map Probed.node)).IsPath path' ∧
      path'.filterMap (erase (probedNodes hooks brk nodes)) = path
  enters : hooks.onEnterHook ≠ mdTokenNil →
    ∀ path, (flowGraph platform ((probedNodes hooks brk nodes).map Probed.node)).IsPath path →
      path <+: enterNodes hooks brk ∨
        ∃ rest, path = enterNodes hooks brk ++ rest ∧ ∀ node ∈ rest, node ∉ enterNodes hooks brk
  returns : hooks.onExitHook ≠ mdTokenNil →
    ∀ before node after, (flowGraph platform ((probedNodes hooks brk nodes).map Probed.node)).IsPath
      (before ++ node :: after) → node.opcode = CEE_RET →
        ∃ ret ∈ nodes, ret.opcode = CEE_RET ∧ ∃ brk',
          { ret with opcode := CEE_NOP } :: probeNodes brk' hooks.onExitHook hooks.hookArg <:+ before

private theorem path_mem {list : List Instr} (path : (flowGraph platform list).IsPath (before ++ node :: after)) :
    node ∈ list := by
  cases before using List.reverseRecOn with
  | nil => exact List.mem_of_mem_head? (path.1 node rfl)
  | append_singleton front previous =>
    have chain := path.2
    rw [List.append_assoc] at chain
    exact step_mem (List.isChain_append_cons_cons.mp chain).2.1

theorem flowPreserved_of_probes (probes : Probes platform hooks.onExitHook hooks.hookArg nodes (enterNodes hooks brk)
    (exitEntries hooks brk nodes)) : FlowPreserved platform hooks brk nodes where
  erases := fun path whole => probes.erasure.shows_path whole
  lifts := fun path whole => probes.erasure.lifts_path whole
  enters := fun enter path whole => probes.opens_path (enterNodes_ne_nil enter brk) whole
  returns := by
    intro exit before node after path ret
    obtain ⟨original, listed, opcode, member⟩ := ret_returns exit probes (path_mem path) ret
    rw [List.append_cons] at path
    exact ⟨original, listed, opcode, probes.returns_path member path.take⟩

/-- The probes of `InjectEnterExitHooks` preserve the control flow of every imported body. -/
theorem probes_preserve_flow (accepted : Import platform body = .ok s)
    (targets : ∀ node ∈ s.listing, node.isBranch platform → node.operand ∈ s.instrs)
    (run : s.AddProbes platform hooks = .ok s') :
    s'.listing = (probedNodes hooks s.brk s.listing).map Probed.node ∧
      FlowPreserved platform hooks s.brk s.listing := by
  obtain ⟨instrs, imported⟩ := Import_eq_ok accepted
  obtain ⟨added, -⟩ := AddProbes_eq_ok imported.holds run
  rw [imported.holds.listing_eq, imported.holds.instrs_eq] at targets
  rw [imported.holds.listing_eq]
  exact ⟨added.listing_eq, flowPreserved_of_probes
    (probes_of_added imported.holds added (importedNodes_wellBlocked imported.valid) fun node member branch =>
      .inl (targets node member branch))⟩

end Preservation

section Witness

/-- A body that starts over while it is told so, and returns. -/
def spin : MethodBody where
  Flags := 0
  MaxStack := 8
  LocalVarSigTok := 0
  Code := [0x16, 0x2D, 0xFD, 0x2A]
  EH := []
  maxStack_lt := smallStack_lt
  inImage := by decide
  clauses_le := noClauses_le

def spinInstrs : List RawInstr := [.plain CEE_LDC_I4_0 0, .plain CEE_BRTRUE_S 0xFD, .plain CEE_RET 0]

theorem spin_imported : ∃ s, Import Ecma335.platform spin = .ok s ∧
    ImportedBody Ecma335.platform spin spinInstrs s := by
  have valid : ∀ instr ∈ spinInstrs, instr.Valid Ecma335.platform := by
    intro instr member
    simp only [spinInstrs, List.mem_cons, List.not_mem_nil, or_false] at member
    rcases member with rfl | rfl | rfl <;> (simp only [RawInstr.Valid]; decide)
  exact Import_of_listing valid (by decide) (by simp [spin])

/-- The branch to the first instruction leads behind the enter probe. -/
theorem probes_preserve_flow_spin : ∃ s s', Import Ecma335.platform spin = .ok s ∧
    s.AddProbes Ecma335.platform ⟨0x06000001, 0x06000002, some 7⟩ = .ok s' ∧
    s'.listing = (probedNodes ⟨0x06000001, 0x06000002, some 7⟩ s.brk s.listing).map Probed.node ∧
    FlowPreserved Ecma335.platform ⟨0x06000001, 0x06000002, some 7⟩ s.brk s.listing := by
  obtain ⟨s, run, imported⟩ := spin_imported
  have nodes : importedNodes Ecma335.platform spinInstrs =
      [⟨m_IL + 1, CEE_LDC_I4_0, 0⟩, ⟨m_IL + 2, CEE_BRTRUE_S, m_IL + 1⟩, ⟨m_IL + 3, CEE_RET, 0⟩] := by
    decide
  have holds := imported.holds
  rw [nodes] at holds
  obtain ⟨s', added⟩ := AddProbes_succeeds ⟨0x06000001, 0x06000002, some 7⟩ holds
    fun _ => ⟨⟨m_IL + 3, CEE_RET, 0⟩, by simp, rfl⟩
  refine ⟨s, s', run, added, probes_preserve_flow run (fun node member branch => ?_) added⟩
  rw [holds.instrs_eq]
  rw [holds.listing_eq] at member
  revert node
  decide

end Witness

end ClrProfiling
