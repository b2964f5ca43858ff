import ClrProfiling.IL.StackDepth

/-! The MaxStack of an exported body against the operand stack its paths need. -/

namespace ClrProfiling

open LinkedRing FlowGraph Word ILRewriter

section Sufficiency

variable {platform : Platform} {hooks : Hooks} {clauses : List EHClause} {nodes : List Instr} {brk : Ptr}

/-- The pushes the rewriter counts for a list and its probes, on top of the declared MaxStack. -/
def countedPushes (platform : Platform) (hooks : Hooks) (nodes : List Instr) : Nat :=
  (nodes.map fun node => platform.k_rgnStackPushes node.opcode).sum +
    ((probeOpcodes hooks nodes).map platform.k_rgnStackPushes).sum

/-- A header value that holds the body, the argument of the enter hook, and the argument of
the exit hook on top of whatever is returned. -/
structure HeaderHolds (platform : Platform) (effects : StackEffects hooks) (clauses : List EHClause)
    (nodes : List Instr)
    (maxStack : Nat) : Prop where
  body : StackBounded platform effects clauses nodes maxStack
  enter : hooks.onEnterHook ≠ mdTokenNil → hooks.hookArg ≠ none → 1 ≤ maxStack
  exit : hooks.onExitHook ≠ mdTokenNil → hooks.hookArg ≠ none →
    ∀ ret depth, (depthGraph platform effects clauses nodes).Reached (ret, depth) → ret.opcode = CEE_RET →
      depth + 1 ≤ maxStack

end Sufficiency

section Probes

variable {platform : Platform} {hooks : Hooks} {effects : StackEffects hooks} {clauses : List EHClause}
  {nodes : List Instr} {brk : Ptr} {maxStack : Nat}

theorem reached_mem (reached : (depthGraph platform effects clauses nodes).Reached (node, depth)) : node ∈ nodes := by
  cases reached with
  | start starts =>
    rcases starts with ⟨first, -⟩ | ⟨member, -⟩
    · exact List.mem_of_mem_head? first
    · exact member
  | step _ step => exact step_mem step.1

/-- Nodes of an exit probe are nodes of one probe. -/
theorem Expanded.exitProbe_mem {onExitHook : UInt32} {hookArg : Option UInt64} {node ret : Instr}
    (expanded : Expanded onExitHook hookArg nodes probed) (member : ⟨node, .exitProbe ret⟩ ∈ probed) :
    ∃ brk, node ∈ probeNodes brk onExitHook hookArg := by
  induction expanded with
  | nil => simp at member
  | keep other rest ih =>
    rcases List.mem_cons.mp member with same | later
    · cases same
    · exact ih later
  | ret other opcode brk newRet rest ih =>
    rcases List.mem_cons.mp member with same | later
    · cases same
    · rcases List.mem_append.mp later with inProbe | behind
      · obtain ⟨probe, listed, same⟩ := List.mem_map.mp inProbe
        cases same
        exact ⟨brk, listed⟩
      · rcases List.mem_cons.mp behind with same | later
        · cases same
        · exact ih later

theorem Expanded.role_ne_enter {onExitHook : UInt32} {hookArg : Option UInt64}
    (expanded : Expanded onExitHook hookArg nodes probed) : ∀ entry ∈ probed, entry.role ≠ .enterProbe := by
  induction expanded with
  | nil => simp
  | keep node rest ih => exact List.forall_mem_cons.mpr ⟨by simp, ih⟩
  | ret node opcode brk newRet rest ih =>
    refine List.forall_mem_cons.mpr ⟨by simp, List.forall_mem_append.mpr ⟨fun entry member => ?_, ?_⟩⟩
    · obtain ⟨probe, -, rfl⟩ := List.mem_map.mp member
      simp
    · exact List.forall_mem_cons.mpr ⟨by simp, ih⟩

/-- What a probe does to a depth that leaves room for its argument. -/
private theorem probe_bounded {hook : UInt32} {entry : Probed} (listed : hook ∈ [hooks.onEnterHook, hooks.onExitHook])
    (present : hook ≠ mdTokenNil) (member : node ∈ probeNodes brk hook hooks.hookArg) (added : entry.added = true)
    (same : entry.node = node) (bounded : entry.settle hooks.hookArg depth ≤ maxStack)
    (room : hooks.hookArg ≠ none → entry.settle hooks.hookArg depth + 1 ≤ maxStack) :
    depth ≤ maxStack ∧ effects.after node depth ≤ maxStack := by
  have call := effects.hook hook listed present depth
  cases argument : hooks.hookArg with
  | none =>
    rw [argument] at member call bounded
    obtain rfl := List.mem_singleton.mp member
    simp only [Probed.settle, Option.isSome_none, Bool.false_eq_true, and_false, if_false] at bounded
    exact ⟨bounded, by rw [StackEffects.after, call]; exact bounded⟩
  | some value =>
    rw [argument] at member call bounded room
    have room := room (by simp)
    rcases List.mem_cons.mp member with rfl | last
    · rw [Probed.settle_of_opcode (by rw [same]; exact show CEE_LDC_I4 ≠ CEE_CALL by decide)] at bounded room
      exact ⟨bounded, by rw [StackEffects.after, effects.ldc_i4]; exact room⟩
    · obtain rfl := List.mem_singleton.mp last
      simp only [Probed.settle, added, same, Option.isSome_some, and_self, if_true] at room
      refine ⟨by omega, ?_⟩
      rw [StackEffects.after, call]
      simp only [Option.elim_some]
      omega

private theorem exit_present (member : entry ∈ probedNodes hooks brk nodes)
    (role : entry.role = .exitProbe ret ∨ entry.role = .returns ret) : hooks.onExitHook ≠ mdTokenNil := by
  intro absent
  rw [probedNodes, if_neg (not_not.mpr absent)] at member
  rcases List.mem_append.mp member with inEnter | inExits
  · obtain ⟨node, -, rfl⟩ := List.mem_map.mp inEnter
    rcases role with role | role <;> cases role
  · obtain ⟨node, -, rfl⟩ := List.mem_map.mp inExits
    rcases role with role | role <;> cases role

private theorem enterProbe_mem {node : Instr} (member : ⟨node, .enterProbe⟩ ∈ probedNodes hooks brk nodes) :
    hooks.onEnterHook ≠ mdTokenNil ∧ node ∈ probeNodes brk hooks.onEnterHook hooks.hookArg := by
  have listed : node ∈ enterNodes hooks brk := by
    rw [probedNodes_eq, entries] at member
    rcases List.mem_append.mp member with inEnter | inExits
    · simpa using inEnter
    · exact absurd ((expanded_exitEntries hooks brk nodes).role_ne_enter _ inExits) (by simp)
  rw [enterNodes] at listed
  split at listed
  · exact ⟨‹_›, listed⟩
  · simp at listed

variable (probes : Probes platform hooks.onExitHook hooks.hookArg nodes (enterNodes hooks brk)
  (exitEntries hooks brk nodes))

include probes

private theorem settled_reached (apart : ClausesApart clauses nodes (probedNodes hooks brk nodes))
    (member : entry ∈ probedNodes hooks brk nodes) (ahead : entry.ahead nodes.head? = some x)
    (reached : (depthGraph platform effects clauses ((probedNodes hooks brk nodes).map Probed.node)).Reached
      (entry.node, depth)) :
    (depthGraph platform effects clauses nodes).Reached (x, entry.settle hooks.hookArg depth) := by
  apply (depthErasure probes effects apart).reached_ahead reached
  have next := probes.aheadOf_eq nodes.head? member
  have settled := probes.settleOf_eq member depth
  rw [ahead] at next
  change (Probes.aheadOf _ _ _).map _ = _
  rw [next, Option.map_some, ← settled]
  rfl

private theorem opens_added (apart : ClausesApart clauses nodes (probedNodes hooks brk nodes))
    (member : entry ∈ probedNodes hooks brk nodes) (added : entry.added = true)
    (opens : opensAt clauses ((probedNodes hooks brk nodes).map Probed.node) entry.node depth) :
    ((probedNodes hooks brk nodes).map Probed.node).head? = some entry.node ∧ depth = 0 := by
  rcases opens with head | ⟨-, clause, listed, opens⟩
  · exact head
  · have kept := probes.opens_kept apart member listed opens
    rw [added] at kept
    cases kept

private theorem head_depth (apart : ClausesApart clauses nodes (probedNodes hooks brk nodes))
    (whole : probedNodes hooks brk nodes = entry :: rest) (added : entry.added = true)
    (reached : (depthGraph platform effects clauses ((probedNodes hooks brk nodes).map Probed.node)).Reached
      (entry.node, depth)) : depth = 0 := by
  have member : entry ∈ probedNodes hooks brk nodes := by simp [whole]
  have fresh := probes.not_target member added
  have nodup := probes.nodes_nodup
  rw [← probedNodes_eq, whole, List.map_cons] at fresh nodup
  have closed := unentered_head nodup fresh
  rw [← List.map_cons, ← whole] at closed
  exact (opens_added probes apart member added (reached.opened closed)).2

private theorem behind_depth (apart : ClausesApart clauses nodes (probedNodes hooks brk nodes))
    (whole : probedNodes hooks brk nodes = before ++ previous :: entry :: after) (added : entry.added = true)
    (external : previous.node.isArgument platform = false)
    (reached : (depthGraph platform effects clauses ((probedNodes hooks brk nodes).map Probed.node)).Reached
      (entry.node, depth)) :
    ∃ earlier, (depthGraph platform effects clauses ((probedNodes hooks brk nodes).map Probed.node)).Reached
      (previous.node, earlier) ∧ depth = effects.after previous.node earlier := by
  have member : entry ∈ probedNodes hooks brk nodes := by simp [whole]
  have fresh := probes.not_target member added
  have nodup := probes.nodes_nodup
  rw [← probedNodes_eq, whole, List.map_append, List.map_cons, List.map_cons] at fresh nodup
  have entered := enteredFrom_cut nodup external fresh
  rw [← List.map_cons, ← List.map_cons, ← List.map_append, ← whole] at entered
  exact entered.weighs (fun opens => entered.1 (opens_added probes apart member added opens).1) reached

/-- The enter probe runs with nothing on the stack but its argument. -/
private theorem enter_settled (apart : ClausesApart clauses nodes (probedNodes hooks brk nodes))
    (listed : node ∈ probeNodes brk hooks.onEnterHook hooks.hookArg) (present : hooks.onEnterHook ≠ mdTokenNil)
    (reached : (depthGraph platform effects clauses ((probedNodes hooks brk nodes).map Probed.node)).Reached
      (node, depth)) : (⟨node, .enterProbe⟩ : Probed).settle hooks.hookArg depth = 0 := by
  have whole := probedNodes_eq hooks brk nodes
  rw [entries, enterNodes, if_pos present] at whole
  cases argument : hooks.hookArg with
  | none =>
    rw [argument] at listed whole
    obtain rfl := List.mem_singleton.mp listed
    obtain rfl := head_depth probes apart whole rfl reached
    exact Probed.settle_zero ..
  | some value =>
    rw [argument] at listed whole
    rcases List.mem_cons.mp listed with rfl | last
    · obtain rfl := head_depth probes apart whole rfl reached
      exact Probed.settle_zero ..
    · obtain rfl := List.mem_singleton.mp last
      have first : probedNodes hooks brk nodes = [] ++ _ := whole
      obtain ⟨earlier, before, rfl⟩ := behind_depth probes apart first rfl
        (external_of_hook (by simp [hookOpcodes])) reached
      obtain rfl := head_depth probes apart whole rfl before
      rw [StackEffects.after, effects.ldc_i4]
      rfl

/-- A header value that holds the body and the arguments of the hooks bounds the probed body. -/
theorem bounded_of_headerHolds (apart : ClausesApart clauses nodes (probedNodes hooks brk nodes))
    (holds : HeaderHolds platform effects clauses nodes maxStack) :
    StackBounded platform effects clauses ((probedNodes hooks brk nodes).map Probed.node) maxStack := by
  intro node depth reached
  obtain ⟨⟨node, role⟩, member, rfl⟩ := List.mem_map.mp (reached_mem reached)
  have sound := probes.sound _ member
  cases role with
  | original =>
    have shown := settled_reached probes apart member rfl reached
    rw [Probed.settle_kept rfl] at shown
    exact holds.body node depth shown
  | replaced ret =>
    have shown := settled_reached probes apart member rfl reached
    rw [Probed.settle_kept rfl] at shown
    obtain ⟨bounded, -⟩ := holds.body ret depth shown
    rw [sound.1, StackEffects.after, effects.nop]
    exact ⟨bounded, bounded⟩
  | returns ret =>
    have shown := settled_reached probes apart member rfl reached
    rw [Probed.settle_of_opcode (by rw [sound.1]; decide)] at shown
    obtain ⟨bounded, -⟩ := holds.body ret depth shown
    rw [StackEffects.after, sound.1]
    exact ⟨bounded, Nat.le_trans (effects.ret ..) bounded⟩
  | exitProbe ret =>
    have shown := settled_reached probes apart member rfl reached
    have present := exit_present member (.inl rfl)
    obtain inEnter | inExits := List.mem_append.mp member
    · simp at inEnter
    · obtain ⟨brk', listed⟩ := probes.expanded.exitProbe_mem inExits
      exact probe_bounded (by simp) present listed rfl rfl (holds.body ret _ shown).1
        fun argument => holds.exit present argument ret _ shown sound.2.2
  | enterProbe =>
    obtain ⟨present, listed⟩ := enterProbe_mem member
    have settled := enter_settled probes apart listed present reached
    apply probe_bounded (by simp) present listed rfl rfl (settled ▸ Nat.zero_le _)
    intro argument
    rw [settled]
    exact holds.enter present argument

private theorem shown_reached (apart : ClausesApart clauses nodes (probedNodes hooks brk nodes))
    (reached : (depthGraph platform effects clauses nodes).Reached (x, depth)) :
    ∃ entry ∈ probedNodes hooks brk nodes, entry.shown = some x ∧
      (depthGraph platform effects clauses ((probedNodes hooks brk nodes).map Probed.node)).Reached
        (entry.node, depth) := by
  obtain ⟨⟨node, after⟩, there, shown⟩ := (depthErasure probes effects apart).reached_shown reached
  obtain ⟨y, here, same⟩ := Option.map_eq_some_iff.mp
    (show (erase (probedNodes hooks brk nodes) node).map (·, after) = some (x, depth) from shown)
  cases same
  obtain ⟨entry, member, rfl, shows⟩ := Probes.of_erase here
  exact ⟨entry, member, shows, there⟩

/-- Behind a RET that is reached, the argument of the exit hook is pushed at the depth of the RET. -/
private theorem exit_argument (apart : ClausesApart clauses nodes (probedNodes hooks brk nodes))
    (present : hooks.onExitHook ≠ mdTokenNil) (argument : hooks.hookArg = some value) (opcode : ret.opcode = CEE_RET)
    (reached : (depthGraph platform effects clauses nodes).Reached (ret, depth)) :
    ∃ push operand, (depthGraph platform effects clauses ((probedNodes hooks brk nodes).map Probed.node)).Reached
      (⟨push, CEE_LDC_I4, operand⟩, depth) := by
  obtain ⟨⟨node, role⟩, member, shown, there⟩ := shown_reached probes apart reached
  have returns : (⟨node, role⟩ : Probed) = ⟨node, .returns ret⟩ := by
    cases role with
    | original =>
      obtain rfl := Option.some.inj shown
      obtain ⟨original, -, -, asReturn⟩ := ret_returns present probes (List.mem_map_of_mem member) opcode
      have one := probes.entry_unique member asReturn rfl
      cases one
    | returns other =>
      obtain rfl := Option.some.inj shown
      rfl
    | _ => simp [Probed.shown] at shown
  rw [returns] at member
  obtain inEnter | inExits := List.mem_append.mp member
  · simp at inEnter
  · obtain ⟨before, after, brk', split⟩ := probes.expanded.cut_returns inExits
    have whole := probedNodes_eq hooks brk nodes
    rw [entries, split, argument] at whole
    -- The last two steps in front of the RET are those through the call and the push.
    let nop : Probed := ⟨{ ret with opcode := CEE_NOP }, .replaced ret⟩
    let push : Probed := ⟨⟨brk', CEE_LDC_I4, value.toNat⟩, .exitProbe ret⟩
    let call : Probed := ⟨⟨brk' + 1, CEE_CALL, hooks.onExitHook.toNat⟩, .exitProbe ret⟩
    let front := (enterNodes hooks brk).map (⟨·, .enterProbe⟩ : Instr → Probed) ++ before ++ [nop]
    have atCall : probedNodes hooks brk nodes = (front ++ [push]) ++ call :: ⟨node, .returns ret⟩ :: after := by
      rw [whole]
      simp [front, nop, push, call, probeNodes]
    have atPush : probedNodes hooks brk nodes = front ++ push :: call :: ⟨node, .returns ret⟩ :: after := by
      rw [atCall]
      simp
    obtain ⟨second, reachedCall, rfl⟩ := behind_depth probes apart atCall rfl
      (external_of_hook (by simp [call, hookOpcodes])) (show _ from there)
    obtain ⟨first, reachedPush, rfl⟩ := behind_depth probes apart atPush rfl
      (external_of_hook (by simp [push, hookOpcodes])) reachedCall
    refine ⟨brk', value.toNat, ?_⟩
    have effect : effects.after call.node (effects.after push.node first) = first := by
      rw [StackEffects.after, StackEffects.after, effects.hook hooks.onExitHook (by simp) present, argument,
        effects.ldc_i4]
      rfl
    rw [effect]
    exact reachedPush

/-- A bound on the probed body holds the body and the arguments of the hooks. -/
theorem headerHolds_of_bounded (apart : ClausesApart clauses nodes (probedNodes hooks brk nodes))
    (bounded : StackBounded platform effects clauses ((probedNodes hooks brk nodes).map Probed.node) maxStack) :
    HeaderHolds platform effects clauses nodes maxStack where
  body := by
    intro node depth reached
    obtain ⟨entry, member, shown, there⟩ := shown_reached probes apart reached
    obtain ⟨within, after⟩ := bounded entry.node depth there
    rcases probes.shown_original member shown with rfl | ⟨-, ret⟩
    · exact ⟨within, after⟩
    · rw [StackEffects.after, ret]
      exact ⟨within, Nat.le_trans (effects.ret ..) within⟩
  enter := by
    intro present argument
    obtain ⟨value, argument⟩ := Option.ne_none_iff_exists'.mp argument
    have head : ((probedNodes hooks brk nodes).map Probed.node).head? = some ⟨brk, CEE_LDC_I4, value.toNat⟩ := by
      rw [probedNodes_eq, entries, enterNodes, if_pos present, argument]
      rfl
    have pushed := (bounded _ 0 (.start (.inl ⟨head, rfl⟩))).2
    rw [StackEffects.after, effects.ldc_i4] at pushed
    exact pushed
  exit := by
    intro present argument ret depth reached opcode
    obtain ⟨value, argument⟩ := Option.ne_none_iff_exists'.mp argument
    obtain ⟨push, operand, there⟩ := exit_argument probes apart present argument opcode reached
    have pushed := (bounded _ depth there).2
    rw [StackEffects.after, effects.ldc_i4] at pushed
    exact pushed

end Probes

section Header

variable {platform : Platform} {body : MethodBody} {hooks : Hooks} {instrs : List RawInstr} {s s' : ILRewriter}

private theorem injected_null (injected : Injected platform body hooks instrs s) :
    nullptr ∉ ((injectedNodes platform hooks instrs).map Probed.node).map Instr.ptr := by
  intro inside
  obtain ⟨node, listed, same⟩ := List.mem_map.mp inside
  have reached := injected.holds.deref listed
  rw [same] at reached
  cases reached

private theorem injected_hub (injected : Injected platform body hooks instrs s) :
    m_IL ∉ ((injectedNodes platform hooks instrs).map Probed.node).map Instr.ptr :=
  (List.nodup_cons.mp injected.holds.ring.nodup).1

/-- The pointers of imported clauses lead to imported instructions, or nowhere. -/
theorem imported_apart (injected : Injected platform body hooks instrs s) :
    ClausesApart (body.EH.map (importedClause platform instrs)) (importedNodes platform instrs)
      (injectedNodes platform hooks instrs) := by
  intro clause member p pointer
  obtain ⟨ehInfo, -, rfl⟩ := List.mem_map.mp member
  have looked (position : Nat) : startNode platform instrs position ∈ (importedNodes platform instrs).map Instr.ptr ∨
      startNode platform instrs position ∉ ((injectedNodes platform hooks instrs).map Probed.node).map Instr.ptr := by
    by_cases boundary : Boundary platform instrs position
    · rcases startNode_refers_iff.mpr boundary with same | listed
      · exact .inr (same ▸ injected_hub injected)
      · exact .inl listed
    · exact .inr (startNode_elsewhere boundary ▸ injected_null injected)
  simp only [List.mem_cons, List.not_mem_nil, or_false] at pointer
  rcases pointer with rfl | rfl
  · exact looked _
  · rw [importedClause]
    split
    · exact looked _
    · exact .inr (injected_null injected)

/-- An imported list with the probes of a run. -/
theorem imported_probes (imported : ImportedBody platform body instrs s)
    (injected : Injected platform body hooks instrs s') :
    Probes platform hooks.onExitHook hooks.hookArg (importedNodes platform instrs) (enterNodes hooks s.brk)
      (exitEntries hooks s.brk (importedNodes platform instrs)) := by
  have added := injected.holds
  rw [injectedNodes, ← imported.brk] at added
  apply probes_of_added imported.holds added (importedNodes_wellBlocked imported.valid)
  intro node member branch
  rw [imported.brk]
  rcases imported_target member branch with null | inside
  · right
    rw [null]
    exact injected_null injected
  · rcases List.mem_cons.mp inside with hub | listed
    · right
      rw [hub]
      exact injected_hub injected
    · exact .inl listed

private theorem bounded_iff (effects : StackEffects hooks) (imported : ImportedBody platform body instrs s)
    (injected : Injected platform body hooks instrs s') (maxStack : Nat) :
    StackBounded platform effects s'.m_pEH s'.listing maxStack ↔
      HeaderHolds platform effects s.m_pEH s.listing maxStack := by
  have probes := imported_probes imported injected
  have apart := imported_apart injected
  rw [injectedNodes, ← imported.brk] at apart
  rw [imported.holds.listing_eq, injected.holds.listing_eq, imported.clauses, injected.clauses, injectedNodes,
    ← imported.brk]
  exact ⟨headerHolds_of_bounded probes apart, bounded_of_headerHolds probes apart⟩

private theorem exported_maxStack (injected : Injected platform body hooks instrs s)
    (run : s.Export platform = .ok result) :
    result.body.MaxStack = (body.MaxStack + countedPushes platform hooks (importedNodes platform instrs)) % 2 ^ 16 := by
  obtain ⟨nodes', assembled⟩ := Export_eq_ok injected.holds (injected.closed run) run
  have counted := injected.maxStack.of_dvd (show 2 ^ 16 ∣ 2 ^ 32 by decide)
  rw [assembled.maxStack, countedPushes, ← Nat.add_assoc]
  exact counted

private theorem counted_push (listed : CEE_LDC_I4 ∈ probeOpcodes hooks nodes) :
    1 ≤ countedPushes platform hooks nodes := by
  have inSum := List.le_sum_of_mem (List.mem_map_of_mem (f := platform.k_rgnStackPushes) listed)
  rw [platform.pushes_ldc_i4] at inSum
  exact Nat.le_add_left_of_le inSum

private theorem enter_counted (present : hooks.onEnterHook ≠ mdTokenNil) (argument : hooks.hookArg = some value)
    (nodes : List Instr) : CEE_LDC_I4 ∈ probeOpcodes hooks nodes := by
  apply List.mem_append_left
  rw [enterNodes, if_pos present, argument]
  exact List.mem_cons_self ..

private theorem exit_counted (present : hooks.onExitHook ≠ mdTokenNil) (argument : hooks.hookArg = some value)
    (member : ret ∈ nodes) (opcode : ret.opcode = CEE_RET) : CEE_LDC_I4 ∈ probeOpcodes hooks nodes := by
  apply List.mem_append_right
  rw [if_pos present, exitOpcodes, argument]
  refine List.mem_flatMap.mpr ⟨ret, member, ?_⟩
  rw [if_pos opcode]
  exact List.mem_cons_of_mem _ (List.mem_cons_self ..)

private theorem headerHolds_of_unwrapped {effects : StackEffects hooks} {clauses : List EHClause} {nodes : List Instr}
    {declared : Nat} (bounded : StackBounded platform effects clauses nodes declared) :
    HeaderHolds platform effects clauses nodes (declared + countedPushes platform hooks nodes) where
  body := by
    intro node depth reached
    obtain ⟨within, after⟩ := bounded node depth reached
    exact ⟨Nat.le_add_right_of_le within, Nat.le_add_right_of_le after⟩
  enter := by
    intro present argument
    obtain ⟨value, argument⟩ := Option.ne_none_iff_exists'.mp argument
    exact Nat.le_add_left_of_le (counted_push (enter_counted present argument nodes))
  exit := by
    intro present argument ret depth reached opcode
    obtain ⟨value, argument⟩ := Option.ne_none_iff_exists'.mp argument
    have counted : 1 ≤ countedPushes platform hooks nodes :=
      counted_push (exit_counted present argument (reached_mem reached) opcode)
    exact Nat.add_le_add (bounded ret depth reached).1 counted

/-- The MaxStack of an exported body is sufficient exactly where the 16 bits that are left of
declared value and counted pushes hold the body and the arguments of the hooks; so it is
wherever the count fits in 16 bits. -/
theorem maxStack_sufficient_iff (effects : StackEffects hooks)
    (run : InjectEnterExitHooks platform body hooks = .ok result) :
    ∃ s s', Import platform body = .ok s ∧ s.AddProbes platform hooks = .ok s' ∧ s'.Export platform = .ok result ∧
      (StackBounded platform effects s'.m_pEH s'.listing result.body.MaxStack ↔
        HeaderHolds platform effects s.m_pEH s.listing
          ((body.MaxStack + countedPushes platform hooks s.listing) % 2 ^ 16)) ∧
      (StackBounded platform effects s.m_pEH s.listing body.MaxStack →
        body.MaxStack + countedPushes platform hooks s.listing < 2 ^ 16 →
          StackBounded platform effects s'.m_pEH s'.listing result.body.MaxStack) := by
  obtain ⟨s, accepted, rest⟩ := Outcome.bind_eq_ok_iff.mp run
  obtain ⟨s', added, exported⟩ := Outcome.bind_eq_ok_iff.mp rest
  obtain ⟨instrs, imported⟩ := Import_eq_ok accepted
  have injected := injected_of_added imported added
  have stored := exported_maxStack injected exported
  rw [← imported.holds.listing_eq] at stored
  have sufficient := bounded_iff effects imported injected result.body.MaxStack
  refine ⟨s, s', accepted, added, exported, stored ▸ sufficient, fun declared small => sufficient.mpr ?_⟩
  rw [stored, Nat.mod_eq_of_lt small]
  exact headerHolds_of_unwrapped declared

end Header

section Calls

/-- Calls of one method without arguments and result, and a RET. -/
def callInstrs (count : Nat) : List RawInstr := List.replicate count (.plain CEE_CALL 0x06000003) ++ [.plain CEE_RET 0]

private theorem mem_callInstrs (member : instr ∈ callInstrs count) :
    instr = .plain CEE_CALL 0x06000003 ∨ instr = .plain CEE_RET 0 := by
  rcases List.mem_append.mp member with call | last
  · exact .inl (List.eq_of_mem_replicate call)
  · exact .inr (List.mem_singleton.mp last)

theorem callInstrs_valid : ∀ instr ∈ callInstrs count, instr.Valid Ecma335.platform := by
  intro instr member
  rcases mem_callInstrs member with rfl | rfl <;> (simp only [RawInstr.Valid]; decide)

private theorem length_callInstrs (count : Nat) :
    (listingBytes Ecma335.platform (callInstrs count)).length = 5 * count + 1 := by
  induction count with
  | zero => decide
  | succ count ih =>
    have size : (RawInstr.plain CEE_CALL 0x06000003).size Ecma335.platform = 5 := by decide
    rw [callInstrs, List.replicate_succ, List.cons_append, length_listingBytes_cons, ← callInstrs, ih, size]
    omega

/-- A void body of calls alone, with the MaxStack of a tiny header. -/
def calls (count : Nat) (inImage : 5 * count + 1 + 12 < 2 ^ 32) : MethodBody where
  Flags := 0
  MaxStack := 8
  LocalVarSigTok := 0
  Code := listingBytes Ecma335.platform (callInstrs count)
  EH := []
  maxStack_lt := smallStack_lt
  inImage := by rwa [length_callInstrs]
  clauses_le := noClauses_le

def callHooks : Hooks := ⟨0x06000001, 0x06000002, some 7⟩

/-- The effects of what these bodies and their probes are made of. -/
def callEffects : StackEffects callHooks where
  depthAfter opcode operand depth :=
    if opcode = CEE_LDC_I4 then depth + 1
    else if opcode = CEE_CALL ∧ operand ∈ [0x06000001, 0x06000002] then depth - 1
    else depth
  nop := by simp
  ldc_i4 := by simp
  ret := by simp
  hook := by
    intro hook listed present depth
    simp only [callHooks, List.mem_cons, List.not_mem_nil, or_false] at listed
    rcases listed with rfl | rfl <;> rfl

private theorem calls_counted (count : Nat) : countedPushes Ecma335.platform callHooks
    (importedNodes Ecma335.platform (callInstrs count)) = count + 4 := by
  have opcodes : (importedNodes Ecma335.platform (callInstrs count)).map Instr.opcode =
      List.replicate count CEE_CALL ++ [CEE_RET] := by
    rw [importedNodes_opcodes, callInstrs, List.flatMap_append, List.flatMap_replicate]
    simp [RawInstr.nodeOpcodes]
  have pushes : (List.replicate count CEE_CALL ++ [CEE_RET]).map Ecma335.platform.k_rgnStackPushes =
      List.replicate count 1 ++ [0] := by
    rw [List.map_append, List.map_replicate, Platform.pushes_call]
    rfl
  have exits : exitOpcodes callHooks.hookArg (importedNodes Ecma335.platform (callInstrs count)) =
      [CEE_RET, CEE_LDC_I4, CEE_CALL] := by
    have byOpcode : exitOpcodes callHooks.hookArg (importedNodes Ecma335.platform (callInstrs count)) =
        ((importedNodes Ecma335.platform (callInstrs count)).map Instr.opcode).flatMap fun opcode =>
          if opcode = CEE_RET then CEE_RET :: (probeNodes m_IL 0 callHooks.hookArg).map Instr.opcode else [] := by
      rw [List.flatMap_map]
      rfl
    rw [byOpcode, opcodes, List.flatMap_append, List.flatMap_eq_nil_iff.mpr fun opcode member => ?_]
    · rfl
    · rw [List.eq_of_mem_replicate member]
      rfl
  have nodePushes : (importedNodes Ecma335.platform (callInstrs count)).map
      (fun node => Ecma335.platform.k_rgnStackPushes node.opcode) = List.replicate count 1 ++ [0] := by
    rw [← pushes, ← opcodes, List.map_map]
    rfl
  have enter : (enterNodes callHooks m_IL).map Instr.opcode = [CEE_LDC_I4, CEE_CALL] := rfl
  rw [countedPushes, nodePushes, probeOpcodes, enter, if_pos (by decide), exits, List.sum_append, List.sum_replicate]
  have probes : (([CEE_LDC_I4, CEE_CALL] ++ [CEE_RET, CEE_LDC_I4, CEE_CALL]).map
      Ecma335.platform.k_rgnStackPushes).sum = 4 := by decide +kernel
  rw [probes]
  simp

/-- None of these bodies puts anything on the stack. -/
private theorem calls_bounded (count maxStack : Nat) : StackBounded Ecma335.platform callEffects []
    (importedNodes Ecma335.platform (callInstrs count)) maxStack := by
  have opcode : ∀ node ∈ importedNodes Ecma335.platform (callInstrs count), node.opcode ≠ CEE_LDC_I4 := by
    intro node member
    have listed : node.opcode ∈ (callInstrs count).flatMap (RawInstr.nodeOpcodes Ecma335.platform) := by
      rw [← importedNodes_opcodes]
      exact List.mem_map_of_mem member
    obtain ⟨instr, inside, own⟩ := List.mem_flatMap.mp listed
    rcases mem_callInstrs inside with rfl | rfl <;> rw [List.mem_singleton.mp own] <;> decide
  have after (node : Instr) (member : node ∈ importedNodes Ecma335.platform (callInstrs count)) :
      callEffects.after node 0 = 0 := by
    simp [StackEffects.after, callEffects, opcode node member]
  have empty : ∀ config, (depthGraph Ecma335.platform callEffects []
      (importedNodes Ecma335.platform (callInstrs count))).Reached config → config.2 = 0 := by
    intro config reached
    induction reached with
    | start starts =>
      rcases starts with ⟨-, zero⟩ | ⟨-, clause, listed, -⟩
      · exact zero
      · simp at listed
    | @step config other reached step ih =>
      obtain ⟨node, depth⟩ := config
      obtain rfl : depth = 0 := ih
      rw [step.2]
      exact after node (reached_mem reached)
  intro node depth reached
  obtain rfl : depth = 0 := empty _ reached
  rw [after node (reached_mem reached)]
  exact ⟨Nat.zero_le _, Nat.zero_le _⟩

theorem calls_injected (count : Nat) (inImage : 5 * count + 1 + 12 < 2 ^ 32)
    (small : 10 * (2 + 4 * (count + 1)) < 2 ^ 32) :
    ∃ result, InjectEnterExitHooks Ecma335.platform (calls count inImage) callHooks = .ok result := by
  have targets : WellTargeted Ecma335.platform (callInstrs count) := by
    intro before instr after split target member
    rcases mem_callInstrs (split ▸ List.mem_append_right before (List.mem_cons_self ..)) with rfl | rfl <;>
      exact absurd member (List.not_mem_nil (a := target))
  refine InjectEnterExitHooks_succeeds callInstrs_valid rfl ⟨targets, by simp [calls]⟩ (fun _ => ⟨0, ?_⟩) ?_
  · exact List.mem_append_right _ (List.mem_singleton_self _)
  · have length := length_injectedNodes_le Ecma335.platform callHooks (callInstrs count)
    have nodes : (importedNodes Ecma335.platform (callInstrs count)).length = count + 1 := by
      rw [importedNodes, List.length_map, length_loadedNodes]
      simp [callInstrs, RawInstr.nodes]
    omega

/-- With 65524 calls and the pushes of both probes the count comes to 2^16, which is stored
as zero; the argument of the enter hook does not fit. -/
theorem calls_overflow : ∃ s s' result,
    Import Ecma335.platform (calls 65524 (by decide)) = .ok s ∧
    s.AddProbes Ecma335.platform callHooks = .ok s' ∧ s'.Export Ecma335.platform = .ok result ∧
    InjectEnterExitHooks Ecma335.platform (calls 65524 (by decide)) callHooks = .ok result ∧
    StackBounded Ecma335.platform callEffects s.m_pEH s.listing (calls 65524 (by decide)).MaxStack ∧
    ¬StackBounded Ecma335.platform callEffects s'.m_pEH s'.listing result.body.MaxStack := by
  obtain ⟨result, run⟩ := calls_injected 65524 (by decide) (by decide)
  obtain ⟨s, accepted, rest⟩ := Outcome.bind_eq_ok_iff.mp run
  obtain ⟨s', added, exported⟩ := Outcome.bind_eq_ok_iff.mp rest
  have imported := Import_listing callInstrs_valid rfl accepted
  have injected := injected_of_added imported added
  have clauses : s.m_pEH = [] := by rw [imported.clauses]; rfl
  refine ⟨s, s', result, accepted, added, exported, run, ?_, fun bounded => ?_⟩
  · rw [clauses, imported.holds.listing_eq]
    exact calls_bounded 65524 _
  · rw [bounded_iff callEffects imported injected, exported_maxStack injected exported, calls_counted] at bounded
    exact absurd (bounded.enter (by decide) (by decide)) (by decide)

theorem maxStack_sufficient_iff_calls : ∃ result,
    InjectEnterExitHooks Ecma335.platform (calls 1 (by decide)) callHooks = .ok result ∧
    ∃ s s', Import Ecma335.platform (calls 1 (by decide)) = .ok s ∧
      s.AddProbes Ecma335.platform callHooks = .ok s' ∧ s'.Export Ecma335.platform = .ok result ∧
      (StackBounded Ecma335.platform callEffects s'.m_pEH s'.listing result.body.MaxStack ↔
        HeaderHolds Ecma335.platform callEffects s.m_pEH s.listing
          (((calls 1 (by decide)).MaxStack + countedPushes Ecma335.platform callHooks s.listing) % 2 ^ 16)) ∧
      (StackBounded Ecma335.platform callEffects s.m_pEH s.listing (calls 1 (by decide)).MaxStack →
        (calls 1 (by decide)).MaxStack + countedPushes Ecma335.platform callHooks s.listing < 2 ^ 16 →
          StackBounded Ecma335.platform callEffects s'.m_pEH s'.listing result.body.MaxStack) := by
  obtain ⟨result, run⟩ := calls_injected 1 (by decide) (by decide)
  exact ⟨result, run, maxStack_sufficient_iff callEffects run⟩

end Calls

end ClrProfiling
