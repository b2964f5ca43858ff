import ClrProfiling.IL.Injection

/-! Prefixes and the instructions they modify, and the RET behind a tail call. -/

namespace ClrProfiling

open LinkedRing Word ILRewriter

abbrev CEE_UNALIGNED : Nat := 0x112
abbrev CEE_VOLATILE : Nat := 0x113
abbrev CEE_TAILCALL : Nat := 0x114
abbrev CEE_CONSTRAINED : Nat := 0x116
abbrev CEE_NO : Nat := 0x119
abbrev CEE_READONLY : Nat := 0x11E

/-- The calls a `tail.` stands in front of. -/
def tailCalls : List Nat := [CEE_CALL, CEE_CALLI, CEE_CALLVIRT]

/-- ldind.*, stind.*, ldobj, ldfld, stfld, stobj, cpblk and initblk. -/
def pointerAccesses : List Nat := List.range' 0x46 0x12 ++ [0x71, 0x7B, 0x7D, 0x81, 0xDF, 0x117, 0x118]

/-- The prefixes of ECMA-335, Partition III, with the instructions each of them modifies. -/
def prefixTable : List (Nat × List Nat) :=
  [(CEE_UNALIGNED, pointerAccesses),
    -- ldsfld and stsfld are aligned, but can be volatile.
    (CEE_VOLATILE, pointerAccesses ++ [0x7E, 0x80]),
    (CEE_TAILCALL, tailCalls),
    (CEE_CONSTRAINED, [CEE_CALLVIRT]),
    -- castclass, unbox, ldfld, stfld, callvirt and ldvirtftn, ldelema to stelem
    (CEE_NO, [0x74, 0x79, 0x7B, 0x7D, CEE_CALLVIRT, 0x107] ++ List.range' 0x8F 0x16),
    (CEE_READONLY, [CEE_CALL, 0x8F])]

def prefixes : List Nat := prefixTable.map Prod.fst

def Modifies (modifier opcode : Nat) : Prop := ∃ entry ∈ prefixTable, entry.1 = modifier ∧ opcode ∈ entry.2

instance (modifier opcode : Nat) : Decidable (Modifies modifier opcode) := inferInstanceAs (Decidable (∃ _ ∈ _, _))

/-- Every prefix stands in front of an instruction that it modifies; `between` are the prefixes
of that instruction that may come behind it. -/
def PrefixesStand (between : List Nat) (nodes : List Instr) : Prop :=
  ∀ before node after, nodes = before ++ node :: after → node.opcode ∈ prefixes →
    ∃ others instruction rest, after = others ++ instruction :: rest ∧
      (∀ other ∈ others, other.opcode ∈ between) ∧ Modifies node.opcode instruction.opcode

/-- A RET stands behind every call with a `tail.` prefix. -/
def TailCallsReturn (between : List Nat) (nodes : List Instr) : Prop :=
  ∀ before node others call rest, nodes = before ++ node :: (others ++ call :: rest) → node.opcode = CEE_TAILCALL →
    (∀ other ∈ others, other.opcode ∈ between) → call.opcode ∈ tailCalls → ∃ ret ∈ rest.head?, ret.opcode = CEE_RET

section Table

theorem modifies_tailCall : Modifies CEE_TAILCALL opcode ↔ opcode ∈ tailCalls := by
  simp [Modifies, prefixTable]

theorem ret_not_modified (modifies : Modifies modifier opcode) : opcode ≠ CEE_RET := by
  obtain ⟨entry, listed, -, member⟩ := modifies
  intro ret
  have absent : ∀ entry ∈ prefixTable, CEE_RET ∉ entry.2 := by decide
  exact absent entry listed (ret ▸ member)

theorem prefix_not_hook (listed : opcode ∈ prefixes) : opcode ∉ hookOpcodes := by
  have apart : ∀ opcode ∈ prefixes, opcode ∉ hookOpcodes := by decide
  exact apart opcode listed

/-- No RET stands between a prefix and what it modifies. -/
theorem plain_of_stacked (within : between ⊆ prefixes) (stacked : ∀ other ∈ others, other.opcode ∈ between)
    {instruction : Instr} (plain : instruction.opcode ≠ CEE_RET) :
    ∀ node ∈ others ++ [instruction], node.opcode ≠ CEE_RET := by
  refine List.forall_mem_append.mpr ⟨fun other member ret => ?_, List.forall_mem_singleton.mpr plain⟩
  apply prefix_not_hook (within (stacked other member))
  simp [hookOpcodes, ret]

end Table

section Lists

variable {between : List Nat} {node : Instr} {rest : List Instr}

theorem prefixesStand_cons : PrefixesStand between (node :: rest) ↔
    (node.opcode ∈ prefixes → ∃ others instruction behind, rest = others ++ instruction :: behind ∧
      (∀ other ∈ others, other.opcode ∈ between) ∧ Modifies node.opcode instruction.opcode) ∧
    PrefixesStand between rest := by
  constructor
  · intro stand
    refine ⟨stand [] node rest rfl, fun before other after split => ?_⟩
    exact stand (node :: before) other after (by rw [split, List.cons_append])
  · intro ⟨first, others⟩ before other after split
    cases before with
    | nil =>
      obtain ⟨rfl, rfl⟩ := List.cons_eq_cons.mp split
      exact first
    | cons head before => exact others before other after (List.cons_eq_cons.mp split).2

theorem tailCallsReturn_cons : TailCallsReturn between (node :: rest) ↔
    (∀ others call behind, rest = others ++ call :: behind → node.opcode = CEE_TAILCALL →
      (∀ other ∈ others, other.opcode ∈ between) → call.opcode ∈ tailCalls →
        ∃ ret ∈ behind.head?, ret.opcode = CEE_RET) ∧
    TailCallsReturn between rest := by
  constructor
  · intro returns
    refine ⟨fun others call behind split => ?_, fun before other others call behind split => ?_⟩
    · exact returns [] node others call behind (by rw [split, List.nil_append])
    · exact returns (node :: before) other others call behind (by rw [split, List.cons_append])
  · intro ⟨first, later⟩ before other others call behind split
    cases before with
    | nil =>
      obtain ⟨rfl, rfl⟩ := List.cons_eq_cons.mp split
      exact first others call behind rfl
    | cons head before => exact later before other others call behind (List.cons_eq_cons.mp split).2

end Lists

section Expanded

variable {onExitHook : UInt32} {hookArg : Option UInt64} {nodes enter : List Instr} {exits : List Probed}
  {between : List Nat}

theorem Expanded.kept (expanded : Expanded onExitHook hookArg (front ++ back) exits)
    (plain : ∀ node ∈ front, node.opcode ≠ CEE_RET) :
    ∃ late, exits.map Probed.node = front ++ late.map Probed.node ∧ Expanded onExitHook hookArg back late ∧
      ∀ entry ∈ late, entry ∈ exits := by
  obtain ⟨early, late, rfl, first, second⟩ := expanded.split
  refine ⟨late, ?_, second, fun entry member => List.mem_append_right early member⟩
  rw [List.map_append, first.of_plain plain]

/-- A prefix behind the probes is one of the list they are added to. -/
private theorem cut_prefix (opens : ∀ node ∈ enter, node.opcode = CEE_LDC_I4 ∨ node.opcode = CEE_CALL)
    (expanded : Expanded onExitHook hookArg nodes exits)
    (whole : (entries enter exits).map Probed.node = before ++ node :: after) (listed : node.opcode ∈ prefixes) :
    ∃ front back late, nodes = front ++ node :: back ∧ after = late.map Probed.node ∧
      Expanded onExitHook hookArg back late := by
  have apart := prefix_not_hook listed
  induction enter generalizing before with
  | nil =>
    obtain ⟨early, others, split, rfl, rest⟩ := List.map_eq_append_iff.mp whole
    obtain ⟨entry, late, rfl, rfl, rfl⟩ := List.map_eq_cons_iff.mp rest
    have member : entry ∈ exits := by
      rw [entries, List.map_nil, List.nil_append] at split
      simp [split]
    have original := (expanded.sound entry member).hook_or_original.resolve_right apart
    rw [original] at split
    obtain ⟨front, back, cut, later⟩ := expanded.cut_original split.symm
    exact ⟨front, back, late, cut, rfl, later⟩
  | cons head enter ih =>
    obtain ⟨first, others⟩ := List.forall_mem_cons.mp opens
    cases before with
    | nil =>
      obtain ⟨rfl, -⟩ := List.cons_eq_cons.mp whole
      refine absurd ?_ apart
      rcases first with opcode | opcode <;> simp [hookOpcodes, opcode]
    | cons other before => exact ih others (List.cons_eq_cons.mp whole).2

private theorem prefixes_entries (opens : ∀ node ∈ enter, node.opcode = CEE_LDC_I4 ∨ node.opcode = CEE_CALL)
    (expanded : Expanded onExitHook hookArg nodes exits) (within : between ⊆ prefixes)
    (stand : PrefixesStand between nodes) : PrefixesStand between ((entries enter exits).map Probed.node) := by
  intro before node after whole listed
  obtain ⟨front, back, late, split, rfl, later⟩ := cut_prefix opens expanded whole listed
  obtain ⟨others, instruction, rest, rfl, stacked, modifies⟩ := stand front node back split listed
  rw [List.append_cons] at later
  obtain ⟨behind, kept, -, -⟩ := later.kept (plain_of_stacked within stacked (ret_not_modified modifies))
  exact ⟨others, instruction, behind.map Probed.node, by simp [kept], stacked, modifies⟩

private theorem tailCalls_kept (opens : ∀ node ∈ enter, node.opcode = CEE_LDC_I4 ∨ node.opcode = CEE_CALL)
    (returns : TailCallsReturn between nodes) :
    TailCallsReturn between ((entries enter (nodes.map (⟨·, .original⟩))).map Probed.node) := by
  intro before node others call rest whole tail stacked called
  have listed : node.opcode ∈ prefixes := by
    rw [tail]
    decide
  have same : (entries enter (nodes.map (⟨·, .original⟩))).map Probed.node = enter ++ nodes := by
    simp [entries, Function.comp_def]
  rw [same] at whole
  rcases List.append_eq_append_iff.mp whole with ⟨inside, -, remaining⟩ | ⟨inside, opened, remaining⟩
  · exact returns inside node others call rest remaining tail stacked called
  · cases inside with
    | nil => exact returns [] node others call rest remaining.symm tail stacked called
    | cons other inside =>
      obtain ⟨rfl, -⟩ := List.cons_eq_cons.mp remaining
      refine absurd ?_ (prefix_not_hook listed)
      rcases opens node (opened ▸ by simp) with opcode | opcode <;> simp [hookOpcodes, opcode]

/-- With an exit hook the RET behind a tail call is a NOP. -/
private theorem tailCall_parted (expanded : Expanded onExitHook hookArg nodes exits)
    (original : ∀ node, ⟨node, .original⟩ ∈ exits → node.opcode ≠ CEE_RET) (within : between ⊆ prefixes)
    (stand : PrefixesStand between nodes) (returns : TailCallsReturn between nodes) (member : node ∈ nodes)
    (tail : node.opcode = CEE_TAILCALL) : ¬TailCallsReturn between ((entries enter exits).map Probed.node) := by
  intro returned
  have listed : node.opcode ∈ prefixes := by
    rw [tail]
    decide
  obtain ⟨before, after, rfl⟩ := List.append_of_mem member
  obtain ⟨others, call, rest, rfl, stacked, modifies⟩ := stand before node after rfl listed
  have called := modifies_tailCall.mp (tail ▸ modifies)
  obtain ⟨ret, first, opcode⟩ := returns before node others call rest rfl tail stacked called
  obtain ⟨rest, rfl⟩ : ∃ rest', rest = ret :: rest' := by
    cases rest with
    | nil => simp at first
    | cons head rest => exact ⟨rest, by simpa using first⟩
  obtain ⟨early, late, rfl, -, second⟩ := expanded.split
  have plain : ∀ other ∈ node :: (others ++ [call]), other.opcode ≠ CEE_RET :=
    List.forall_mem_cons.mpr ⟨by rw [tail]; decide, plain_of_stacked within stacked (ret_not_modified modifies)⟩
  have shape : node :: (others ++ call :: ret :: rest) = (node :: (others ++ [call])) ++ ret :: rest := by simp
  rw [shape] at second
  obtain ⟨behind, kept, later, known⟩ := second.kept plain
  cases later with
  | keep _ rest => exact original ret (List.mem_append_right _ (known _ (List.mem_cons_self ..))) opcode
  | ret _ _ brk newRet rest =>
    obtain ⟨nop, first, same⟩ := returned ((entries enter early).map Probed.node) node others call _
      (by rw [entries, ← List.append_assoc, List.map_append, kept]; simp [entries]; rfl) tail stacked called
    obtain rfl : _ = nop := by simpa using first
    exact absurd same (show CEE_NOP ≠ CEE_RET by decide)

end Expanded

section Injection

variable {platform : Platform} {body : MethodBody} {hooks : Hooks} {instrs : List RawInstr} {s s' : ILRewriter}
  {between : List Nat}

/-- Probes part no prefix from what it modifies. -/
theorem prefixes_injected (injected : Injected platform body hooks instrs s') (within : between ⊆ prefixes)
    (stand : PrefixesStand between (importedNodes platform instrs)) : PrefixesStand between s'.listing := by
  rw [injected.holds.listing_eq, injectedNodes, probedNodes_eq]
  exact prefixes_entries (fun node member => enterNodes_opcode member) (expanded_exitEntries ..) within stand

/-- Both rules hold behind the probes exactly where there is no exit hook, or no tail call. -/
theorem prefixes_injected_iff (accepted : Import platform body = .ok s) (added : s.AddProbes platform hooks = .ok s')
    (within : between ⊆ prefixes) (stand : PrefixesStand between s.listing)
    (returns : TailCallsReturn between s.listing) :
    PrefixesStand between s'.listing ∧ TailCallsReturn between s'.listing ↔
      hooks.onExitHook = mdTokenNil ∨ ∀ node ∈ s.listing, node.opcode ≠ CEE_TAILCALL := by
  obtain ⟨instrs, imported⟩ := Import_eq_ok accepted
  have injected := injected_of_added imported added
  rw [imported.holds.listing_eq] at stand returns ⊢
  have listing : s'.listing = (injectedNodes platform hooks instrs).map Probed.node := injected.holds.listing_eq
  rw [injectedNodes, probedNodes_eq] at listing
  constructor
  · intro both
    have returned := both.2
    by_contra excluded
    obtain ⟨exit, present⟩ := not_or.mp excluded
    push Not at present
    obtain ⟨node, member, tail⟩ := present
    rw [listing] at returned
    refine tailCall_parted (expanded_exitEntries ..) (fun other kept => ?_) within stand returns member tail returned
    rw [exitEntries, if_pos exit] at kept
    exact exitProbed_original _ kept
  · intro either
    refine ⟨prefixes_injected injected within stand, ?_⟩
    rw [listing]
    rcases either with absent | absent
    · rw [exitEntries, if_neg (not_not.mpr absent)]
      exact tailCalls_kept (fun node member => enterNodes_opcode member) returns
    · intro before node others call rest whole tail
      have listed : node.opcode ∈ prefixes := by
        rw [tail]
        decide
      obtain ⟨front, back, -, split, -⟩ :=
        cut_prefix (fun node member => enterNodes_opcode member) (expanded_exitEntries ..) whole listed
      exact absurd tail (absent node (by simp [split]))

end Injection

section Witness

/-- `return M();` as a tail call. -/
def tailInstrs : List RawInstr := [.plain CEE_TAILCALL 0, .plain CEE_CALL 0x06000003, .plain CEE_RET 0]

def tailBody : MethodBody where
  Flags := 0
  MaxStack := 8
  LocalVarSigTok := 0
  Code := [0xFE, 0x14, 0x28, 0x03, 0x00, 0x00, 0x06, 0x2A]
  EH := []
  maxStack_lt := smallStack_lt
  inImage := by decide
  clauses_le := noClauses_le

private theorem tailBody_injected (hooks : Hooks) : ∃ s s', Import Ecma335.platform tailBody = .ok s ∧
    s.AddProbes Ecma335.platform hooks = .ok s' ∧
    s.listing = [⟨m_IL + 1, CEE_TAILCALL, 0⟩, ⟨m_IL + 2, CEE_CALL, 0x06000003⟩, ⟨m_IL + 3, CEE_RET, 0⟩] ∧
    s'.listing = (injectedNodes Ecma335.platform hooks tailInstrs).map Probed.node := by
  have valid : ∀ instr ∈ tailInstrs, instr.Valid Ecma335.platform := by
    intro instr member
    simp only [tailInstrs, List.mem_cons, List.not_mem_nil, or_false] at member
    rcases member with rfl | rfl | rfl <;> (simp only [RawInstr.Valid]; decide)
  have code : tailBody.Code = listingBytes Ecma335.platform tailInstrs := by decide
  obtain ⟨s, s', accepted, added, imported, injected⟩ := injected_of_listing valid code (by simp [tailBody]) hooks
    fun _ => ⟨0, by simp [tailInstrs]⟩
  exact ⟨s, s', accepted, added, imported.holds.listing_eq.trans (by decide), injected.holds.listing_eq⟩

private theorem tailBody_stand : PrefixesStand []
    [⟨m_IL + 1, CEE_TAILCALL, 0⟩, ⟨m_IL + 2, CEE_CALL, 0x06000003⟩, ⟨m_IL + 3, CEE_RET, 0⟩] := by
  refine prefixesStand_cons.mpr ⟨fun _ => ⟨[], _, _, rfl, by simp, by decide⟩, ?_⟩
  refine prefixesStand_cons.mpr ⟨fun listed => absurd listed (by decide), ?_⟩
  refine prefixesStand_cons.mpr ⟨fun listed => absurd listed (by decide), fun before node after split => ?_⟩
  simp at split

private theorem tailBody_returns : TailCallsReturn []
    [⟨m_IL + 1, CEE_TAILCALL, 0⟩, ⟨m_IL + 2, CEE_CALL, 0x06000003⟩, ⟨m_IL + 3, CEE_RET, 0⟩] := by
  refine tailCallsReturn_cons.mpr ⟨fun others call behind split _ stacked _ => ?_, ?_⟩
  · cases others with
    | nil =>
      obtain ⟨-, rfl⟩ := List.cons_eq_cons.mp split
      exact ⟨_, rfl, rfl⟩
    | cons other others => exact absurd (stacked other (List.mem_cons_self ..)) List.not_mem_nil
  · refine tailCallsReturn_cons.mpr ⟨fun _ _ _ _ tail => absurd tail (by decide), ?_⟩
    refine tailCallsReturn_cons.mpr ⟨fun _ _ _ _ tail => absurd tail (by decide), fun before _ _ _ _ split => ?_⟩
    simp at split

/-- With the enter hook alone the tail call stays in front of its RET. -/
theorem prefixes_injected_iff_entered : ∃ s s', Import Ecma335.platform tailBody = .ok s ∧
    s.AddProbes Ecma335.platform ⟨0x06000001, mdTokenNil, some 7⟩ = .ok s' ∧
    (PrefixesStand [] s'.listing ∧ TailCallsReturn [] s'.listing ↔
      mdTokenNil = mdTokenNil ∨ ∀ node ∈ s.listing, node.opcode ≠ CEE_TAILCALL) := by
  obtain ⟨s, s', accepted, added, listing, -⟩ := tailBody_injected ⟨0x06000001, mdTokenNil, some 7⟩
  exact ⟨s, s', accepted, added, prefixes_injected_iff accepted added (List.nil_subset _) (listing ▸ tailBody_stand)
    (listing ▸ tailBody_returns)⟩

/-- With the exit hook a NOP stands behind the tail call, and the probe in front of the new RET. -/
theorem tailCall_not_returning : ¬ ∀ (body : MethodBody) (hooks : Hooks) (s s' : ILRewriter),
    Import Ecma335.platform body = .ok s → s.AddProbes Ecma335.platform hooks = .ok s' →
    PrefixesStand [] s.listing → TailCallsReturn [] s.listing →
      PrefixesStand [] s'.listing ∧ TailCallsReturn [] s'.listing := by
  intro preserved
  obtain ⟨s, s', accepted, added, listing, injected⟩ := tailBody_injected ⟨mdTokenNil, 0x06000002, none⟩
  obtain ⟨-, returned⟩ := preserved tailBody _ s s' accepted added (listing ▸ tailBody_stand)
    (listing ▸ tailBody_returns)
  have probed : s'.listing = [⟨m_IL + 1, CEE_TAILCALL, 0⟩, ⟨m_IL + 2, CEE_CALL, 0x06000003⟩, ⟨m_IL + 3, CEE_NOP, 0⟩,
      ⟨m_IL + 5, CEE_CALL, 0x06000002⟩, ⟨m_IL + 4, CEE_RET, 0⟩] := injected.trans (by decide)
  obtain ⟨nop, first, opcode⟩ := returned [] _ [] _ _ probed rfl (by simp) (by decide)
  obtain rfl : _ = nop := by simpa using first
  exact absurd opcode (show CEE_NOP ≠ CEE_RET by decide)

end Witness

end ClrProfiling
