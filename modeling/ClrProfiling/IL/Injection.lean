import ClrProfiling.IL.FlowPreservation

/-! `InjectEnterExitHooks` as a whole: the list Export is given, and when it succeeds. -/

namespace ClrProfiling

open LinkedRing Word ILRewriter

/-- The entries of the list that is exported for a sequence of instructions. -/
def injectedNodes (platform : Platform) (hooks : Hooks) (instrs : List RawInstr) : List Probed :=
  probedNodes hooks (m_IL + 1 + (importedNodes platform instrs).length) (importedNodes platform instrs)

section Blocks

variable {platform : Platform} {onExitHook : UInt32} {hookArg : Option UInt64} {nodes : List Instr}

theorem wellBlocked_hook {node : Instr} (hook : node.opcode ∈ hookOpcodes) : WellBlocked platform [node] := by
  simp only [hookOpcodes, List.mem_cons, List.not_mem_nil, or_false] at hook
  rcases hook with opcode | opcode | opcode | opcode <;>
    exact wellBlocked_plain (opcode ▸ platform.importable_oneByte (by decide)) (opcode ▸ by decide)

theorem wellBlocked_hooks {nodes : List Instr} (hooks : ∀ node ∈ nodes, node.opcode ∈ hookOpcodes) :
    WellBlocked platform nodes := by
  induction nodes with
  | nil => exact ⟨[], by simp, rfl⟩
  | cons node rest ih =>
    obtain ⟨first, others⟩ := List.forall_mem_cons.mp hooks
    exact (wellBlocked_hook first).append (ih others)

/-- An expansion falls into the expansions of the parts of its list. -/
theorem Expanded.split {before after : List Instr} (expanded : Expanded onExitHook hookArg (before ++ after) probed) :
    ∃ early late, probed = early ++ late ∧ Expanded onExitHook hookArg before early ∧
      Expanded onExitHook hookArg after late := by
  induction before generalizing probed with
  | nil => exact ⟨[], probed, rfl, .nil, expanded⟩
  | cons node rest ih =>
    cases expanded with
    | keep _ others =>
      obtain ⟨early, late, rfl, first, second⟩ := ih others
      exact ⟨_ :: early, late, rfl, .keep node first, second⟩
    | ret _ opcode brk newRet others =>
      obtain ⟨early, late, rfl, first, second⟩ := ih others
      exact ⟨_, late, by simp, .ret node opcode brk newRet first, second⟩

theorem Expanded.of_plain (expanded : Expanded onExitHook hookArg nodes probed)
    (plain : ∀ node ∈ nodes, node.opcode ≠ CEE_RET) : probed.map Probed.node = nodes := by
  induction expanded with
  | nil => rfl
  | keep node rest ih =>
    obtain ⟨-, others⟩ := List.forall_mem_cons.mp plain
    rw [List.map_cons, ih others]
  | ret node opcode brk newRet rest ih => exact absurd opcode (plain node (List.mem_cons_self ..))

private theorem Expanded.block {block : Block} (formed : block.WellFormed platform)
    (expanded : Expanded onExitHook hookArg block.nodes probed) : WellBlocked platform (probed.map Probed.node) := by
  cases block with
  | plain node =>
    cases expanded with
    | keep _ rest =>
      cases rest
      exact wellBlocked_plain formed.1 formed.2
    | ret _ opcode brk newRet rest =>
      cases rest
      apply wellBlocked_hooks
      intro other member
      simp only [List.map_cons, List.map_append, List.map_map, List.map_nil, List.mem_cons,
        List.mem_append, List.mem_map,
        Function.comp_apply, List.not_mem_nil, or_false] at member
      rcases member with rfl | ⟨probe, listed, rfl⟩ | rfl
      · simp [hookOpcodes]
      · rcases probeNodes_opcode listed with opcode | opcode <;> simp [hookOpcodes, opcode]
      · simp [hookOpcodes]
  | switch node arguments =>
    have plain : ∀ other ∈ (Block.switch node arguments).nodes, other.opcode ≠ CEE_RET := by
      intro other member ret
      rcases List.mem_cons.mp member with rfl | listed
      · exact absurd (formed.1.symm.trans ret) (by decide)
      · have external : other.isArgument platform = false := external_of_hook (by simp [hookOpcodes, ret])
        simp [Instr.isArgument, formed.2.2 other listed] at external
    rw [expanded.of_plain plain]
    exact ⟨[.switch node arguments], by simpa using formed, by simp⟩

/-- Probes keep instructions whole. -/
theorem Expanded.wellBlocked (expanded : Expanded onExitHook hookArg nodes probed)
    (blocked : WellBlocked platform nodes) :
    WellBlocked platform (probed.map Probed.node) := by
  obtain ⟨blocks, formed, rfl⟩ := blocked
  induction blocks generalizing probed with
  | nil =>
    cases expanded
    exact ⟨[], by simp, rfl⟩
  | cons block rest ih =>
    obtain ⟨first, others⟩ := List.forall_mem_cons.mp formed
    rw [blockNodes_cons] at expanded
    obtain ⟨early, late, rfl, here, later⟩ := expanded.split
    rw [List.map_append]
    exact (here.block first).append (ih others later)

theorem Expanded.sublist (expanded : Expanded onExitHook hookArg nodes probed) :
    (nodes.map Instr.ptr).Sublist ((probed.map Probed.node).map Instr.ptr) := by
  induction expanded with
  | nil => exact .slnil
  | keep node rest ih => exact ih.cons_cons _
  | ret node opcode brk newRet rest ih =>
    apply List.Sublist.cons_cons
    rw [List.map_append, List.map_append]
    exact ih.trans ((List.sublist_cons_self ..).trans (List.sublist_append_right ..))

end Blocks

section Injection

variable {platform : Platform} {body : MethodBody} {hooks : Hooks} {instrs : List RawInstr}

/-- What stands in front of Export. -/
structure Injected (platform : Platform) (body : MethodBody) (hooks : Hooks) (instrs : List RawInstr)
    (s : ILRewriter) : Prop where
  holds : s.Holds ((injectedNodes platform hooks instrs).map Probed.node)
  blocked : WellBlocked platform ((injectedNodes platform hooks instrs).map Probed.node)
  maxStack : s.m_maxStack ≡ body.MaxStack +
    ((importedNodes platform instrs).map fun node => platform.k_rgnStackPushes node.opcode).sum +
    ((probeOpcodes hooks (importedNodes platform instrs)).map platform.k_rgnStackPushes).sum [MOD 2 ^ 32]
  clauses : s.m_pEH = body.EH.map (importedClause platform instrs)
  flags : s.m_flags = body.Flags &&& CorILMethod_InitLocals
  localVarSig : s.m_tkLocalVarSig = body.LocalVarSigTok

theorem expanded_injected (platform : Platform) (hooks : Hooks) (instrs : List RawInstr) :
    ∃ enter exits, injectedNodes platform hooks instrs = entries enter exits ∧
      (∀ node ∈ enter, node.opcode = CEE_LDC_I4 ∨ node.opcode = CEE_CALL) ∧
      Expanded hooks.onExitHook hooks.hookArg (importedNodes platform instrs) exits :=
  ⟨_, _, probedNodes_eq .., fun _ member => enterNodes_opcode member, expanded_exitEntries ..⟩

private theorem length_probeNodes_le (brk : Ptr) (hookMethod : UInt32) (hookArg : Option UInt64) :
    (probeNodes brk hookMethod hookArg).length ≤ 2 := by
  cases hookArg <;> simp [probeNodes]

private theorem Expanded.length_le (expanded : Expanded onExitHook hookArg nodes probed) :
    probed.length ≤ 4 * nodes.length := by
  induction expanded with
  | nil => simp
  | keep node rest ih =>
    simp only [List.length_cons]
    omega
  | ret node opcode brk newRet rest ih =>
    have probe := length_probeNodes_le brk onExitHook hookArg
    simp only [List.length_cons, List.length_append, List.length_map]
    omega

theorem length_injectedNodes_le (platform : Platform) (hooks : Hooks) (instrs : List RawInstr) :
    (injectedNodes platform hooks instrs).length ≤ 2 + 4 * (importedNodes platform instrs).length := by
  rw [injectedNodes, probedNodes_eq, entries, List.length_append, List.length_map]
  refine Nat.add_le_add ?_ (expanded_exitEntries ..).length_le
  unfold enterNodes
  split
  · exact length_probeNodes_le ..
  · simp

theorem injected_wellBlocked (hooks : Hooks) (valid : ∀ instr ∈ instrs, instr.Valid platform) :
    WellBlocked platform ((injectedNodes platform hooks instrs).map Probed.node) := by
  obtain ⟨enter, exits, whole, opens, expanded⟩ := expanded_injected platform hooks instrs
  rw [whole, entries, List.map_append]
  refine WellBlocked.append (wellBlocked_hooks fun node member => ?_)
    (expanded.wellBlocked (importedNodes_wellBlocked valid))
  have inEnter : node ∈ enter := by simpa [Function.comp_def] using member
  rcases opens node inEnter with opcode | opcode <;> simp [hookOpcodes, opcode]

theorem injected_of_added {s s' : ILRewriter} (imported : ImportedBody platform body instrs s)
    (run : s.AddProbes platform hooks = .ok s') : Injected platform body hooks instrs s' := by
  obtain ⟨holds, grown⟩ := AddProbes_eq_ok imported.holds run
  rw [imported.brk] at holds
  refine ⟨holds, injected_wellBlocked hooks imported.valid, ?_, ?_, ?_, ?_⟩
  · exact grown.maxStack.trans (imported.maxStack.add_right _)
  · exact grown.clauses.trans imported.clauses
  · exact grown.flags.trans imported.flags
  · exact grown.localVarSig.trans imported.localVarSig

/-- A run of `InjectEnterExitHooks`, up to Export. -/
theorem InjectEnterExitHooks_eq_ok (valid : ∀ instr ∈ instrs, instr.Valid platform)
    (code : body.Code = listingBytes platform instrs) (run : InjectEnterExitHooks platform body hooks = .ok result) :
    ∃ s, Injected platform body hooks instrs s ∧ s.Export platform = .ok result := by
  obtain ⟨imported, accepted, rest⟩ := Outcome.bind_eq_ok_iff.mp run
  obtain ⟨s, added, exported⟩ := Outcome.bind_eq_ok_iff.mp rest
  exact ⟨s, injected_of_added (Import_listing valid code accepted) added, exported⟩

theorem imported_target (member : node ∈ importedNodes platform instrs) (branch : node.isBranch platform) :
    node.operand = nullptr ∨ node.operand ∈ m_IL :: (importedNodes platform instrs).map Instr.ptr := by
  let Wanted (p : Ptr) : Prop := p = nullptr ∨ p ∈ m_IL :: (importedNodes platform instrs).map Instr.ptr
  refine (importedNodes_targets Wanted).mpr ?_ node member branch
  intro before instr after split target _
  by_cases boundary : Boundary platform instrs target
  · exact .inr (List.mem_cons.mpr (startNode_refers_iff.mpr boundary))
  · exact .inl (startNode_elsewhere boundary)

/-- The branches of an injected list are imported ones. -/
theorem injected_branch (member : node ∈ (injectedNodes platform hooks instrs).map Probed.node)
    (branch : node.isBranch platform) : node ∈ importedNodes platform instrs := by
  obtain ⟨enter, exits, whole, opens, expanded⟩ := expanded_injected platform hooks instrs
  obtain ⟨entry, listed, rfl⟩ := List.mem_map.mp member
  rw [whole] at listed
  have sound : entry.Sound (importedNodes platform instrs) := by
    rcases List.mem_append.mp listed with inEnter | inExits
    · obtain ⟨node, inside, rfl⟩ := List.mem_map.mp inEnter
      exact opens node inside
    · exact expanded.sound entry inExits
  have original := sound.original_of_branch branch
  rw [original] at sound
  exact sound

theorem injected_ptrs (member : p ∈ m_IL :: (importedNodes platform instrs).map Instr.ptr) :
    p ∈ m_IL :: ((injectedNodes platform hooks instrs).map Probed.node).map Instr.ptr := by
  obtain ⟨enter, exits, whole, -, expanded⟩ := expanded_injected platform hooks instrs
  rcases List.mem_cons.mp member with rfl | listed
  · exact List.mem_cons_self ..
  · rw [whole, entries, List.map_append, List.map_append]
    exact List.mem_cons_of_mem _ (List.mem_append_right _ (expanded.sublist.subset listed))

theorem Injected.closed {s : ILRewriter} (injected : Injected platform body hooks instrs s)
    (run : s.Export platform = .ok result) :
    Closed platform ((injectedNodes platform hooks instrs).map Probed.node) := by
  intro node member branch
  have reached := Export_targets injected.holds run node member branch
  rcases imported_target (injected_branch member branch) branch with null | inside
  · rw [null] at reached
    cases reached
  · exact injected_ptrs inside

theorem importedNodes_opcode {opcode operand : Nat} (member : .plain opcode operand ∈ instrs) :
    ∃ node ∈ importedNodes platform instrs, node.opcode = opcode := by
  obtain ⟨before, after, rfl⟩ := List.append_of_mem member
  rw [importedNodes, loadedNodes_append, loadedNodes, rawNodes]
  exact ⟨_, List.mem_map_of_mem (List.mem_append_right _ (List.mem_append_left _ (List.mem_singleton_self _))),
    resolved_opcode ..⟩

theorem injected_of_listing (valid : ∀ instr ∈ instrs, instr.Valid platform)
    (code : body.Code = listingBytes platform instrs)
    (handlers : ∀ ehInfo ∈ body.EH, Boundary platform instrs (ehInfo.HandlerOffset + ehInfo.HandlerLength).toNat)
    (hooks : Hooks) (ret : hooks.onExitHook ≠ mdTokenNil → ∃ operand, .plain CEE_RET operand ∈ instrs) :
    ∃ s s', Import platform body = .ok s ∧ s.AddProbes platform hooks = .ok s' ∧ ImportedBody platform body instrs s ∧
      Injected platform body hooks instrs s' := by
  obtain ⟨s, accepted, imported⟩ := Import_of_listing valid code handlers
  obtain ⟨s', added⟩ := AddProbes_succeeds hooks imported.holds fun exit =>
    importedNodes_opcode (ret exit).choose_spec
  exact ⟨s, s', accepted, added, imported, injected_of_added imported added⟩

/-- `InjectEnterExitHooks` succeeds on bodies whose references are instruction boundaries and
whose list takes less than 2^32 bytes at ten a node. -/
theorem InjectEnterExitHooks_succeeds (valid : ∀ instr ∈ instrs, instr.Valid platform)
    (code : body.Code = listingBytes platform instrs) (references : RefersToBoundaries platform body instrs)
    (ret : hooks.onExitHook ≠ mdTokenNil → ∃ operand, .plain CEE_RET operand ∈ instrs)
    (small : 10 * (injectedNodes platform hooks instrs).length < 2 ^ 32) :
    ∃ result, InjectEnterExitHooks platform body hooks = .ok result := by
  have handlers : ∀ ehInfo ∈ body.EH, Boundary platform instrs (ehInfo.HandlerOffset + ehInfo.HandlerLength).toNat :=
    fun ehInfo member => references.clauses ehInfo member _ (by simp [EHInfo.positions])
  obtain ⟨s, s', accepted, added, imported, injected⟩ := injected_of_listing valid code handlers hooks ret
  have resolved := imported.resolved_iff.mpr ⟨references.code, references.clauses⟩
  have pointers : ∀ clause ∈ s'.m_pEH, ∀ p ∈ clause.pointers, s'.deref p = .ok p := by
    intro clause member p pointer
    rw [injected.clauses, ← imported.clauses] at member
    rcases List.mem_cons.mp (injected_ptrs ((resolved.clauses clause member p pointer).mem imported.holds)) with
      hub | listed
    · rw [hub]
      exact injected.holds.deref_hub
    · obtain ⟨node, inside, rfl⟩ := List.mem_map.mp listed
      exact injected.holds.deref inside
  have closed : Closed platform ((injectedNodes platform hooks instrs).map Probed.node) := fun node member branch =>
    injected_ptrs (resolved.closed imported.holds node (injected_branch member branch) branch)
  obtain ⟨result, exported⟩ := Export_succeeds injected.holds closed pointers (by rwa [List.length_map])
  refine ⟨result, ?_⟩
  rw [InjectEnterExitHooks, accepted, Outcome.ok_bind, added, Outcome.ok_bind, exported]

end Injection

section Rewriting

variable {platform : Platform} {body : MethodBody} {hooks : Hooks}

/-- `InjectEnterExitHooks` is the code that `Rewrite` makes, with the header and the section around it. -/
theorem InjectEnterExitHooks_iff {s : ILRewriter} {fat : FatBody} :
    (∃ passes, InjectEnterExitHooks platform body hooks = .ok ⟨s, fat, passes⟩) ↔
      Rewrite platform body hooks = .ok (s, fat.Code) ∧ s.ExportBody fat.Code = .ok fat := by
  constructor
  · rintro ⟨passes, run⟩
    obtain ⟨imported, accepted, run⟩ := Outcome.bind_eq_ok_iff.mp run
    obtain ⟨probed, added, run⟩ := Outcome.bind_eq_ok_iff.mp run
    obtain ⟨⟨last, buffer, offset, _⟩, again, run⟩ := Outcome.bind_eq_ok_iff.mp run
    obtain ⟨exported, body, done⟩ := Outcome.bind_eq_ok_iff.mp run
    cases done
    have code : fat.Code = buffer.read 0 offset := by
      obtain ⟨clauses, -, done⟩ := Outcome.bind_eq_ok_iff.mp body
      cases done
      rfl
    rw [Rewrite, accepted, Outcome.ok_bind, added, Outcome.ok_bind, again, Outcome.ok_bind, code]
    exact ⟨rfl, body⟩
  · rintro ⟨run, body⟩
    obtain ⟨imported, accepted, run⟩ := Outcome.bind_eq_ok_iff.mp run
    obtain ⟨probed, added, run⟩ := Outcome.bind_eq_ok_iff.mp run
    obtain ⟨⟨last, buffer, offset, passes⟩, again, done⟩ := Outcome.bind_eq_ok_iff.mp run
    obtain ⟨rfl, code⟩ := Prod.mk.inj (Except.ok.inj done)
    refine ⟨passes, ?_⟩
    rw [InjectEnterExitHooks, accepted, Outcome.ok_bind, added, Outcome.ok_bind, Export, again, Outcome.ok_bind]
    dsimp only
    rw [code, body]
    rfl

/-- The rewriter follows its own loops to their end. -/
theorem Rewrite_stops {failure : Failure} (run : Rewrite platform body hooks = .error failure) :
    failure ≠ .outOfFuel := by
  rcases Outcome.bind_eq_error_iff.mp run with refused | ⟨s, accepted, run⟩
  · rcases Outcome.bind_eq_error_iff.mp refused with refused | ⟨s, -, refused⟩
    · rw [(ImportIL_parses platform body).1 failure refused]
      decide
    · rcases Outcome.bind_eq_error_iff.mp refused with refused | ⟨clauses, -, done⟩
      · obtain ⟨ehInfo, refused⟩ := Outcome.mapM_eq_error refused
        rw [ImportClause_refuses refused]
        decide
      · cases done
  · obtain ⟨instrs, imported⟩ := Import_eq_ok accepted
    rcases Outcome.bind_eq_error_iff.mp run with refused | ⟨s', added, run⟩
    · rw [AddProbes_refuses imported.holds refused]
      decide
    · have injected := injected_of_added imported added
      rcases Outcome.bind_eq_error_iff.mp run with stopped | ⟨_, -, done⟩
      · have narrow : (s'.outputBuffer platform).size < 2 ^ 32 := Nat.mod_lt _ (by decide)
        have enough : shortCount platform ((injectedNodes platform hooks instrs).map Probed.node) < s'.brk :=
          List.countP_le_length.trans_lt (Nat.lt_of_succ_lt injected.holds.length_lt)
        rcases Again_stops injected.holds narrow enough stopped with stray | outside
        · rw [stray]
          decide
        · rw [outside]
          decide
      · cases done

end Rewriting

end ClrProfiling
