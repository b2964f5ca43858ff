import ClrProfiling.IL.Decoding

/-! Lists edited behind Import: what any sequence of insertions leaves behind, and that
decoding the exported code gives the edited list back. -/

namespace ClrProfiling

open LinkedRing Word

namespace ILRewriter

section Edits

variable (platform : Platform)

/-- A new instruction in front of `pWhere`. -/
def InsertNewBefore (s : ILRewriter) (pWhere : Ptr) (opcode operand : Nat) : ILRewriter :=
  let (pNewInstr, s) := s.NewILInstr
  let s := s.setOpcode pNewInstr opcode
  let s := s.setOperand pNewInstr operand
  s.InsertBefore platform pWhere pNewInstr

/-- A new instruction behind `pWhere`. -/
def InsertNewAfter (s : ILRewriter) (pWhere : Ptr) (opcode operand : Nat) : ILRewriter :=
  let (pNewInstr, s) := s.NewILInstr
  let s := s.setOpcode pNewInstr opcode
  let s := s.setOperand pNewInstr operand
  s.InsertAfter platform pWhere pNewInstr

/-- No target of a `switch` stands at `p`. -/
def OutsideSwitch (s : ILRewriter) (p : Ptr) : Prop :=
  ∀ node ∈ s.listing, node.ptr = p → node.opcode ≠ platform.CEE_SWITCH_ARG

/-- The lists reached by inserting instructions ImportIL knows, none of them a `switch`
and none between a `switch` and its targets. -/
inductive Edited (s : ILRewriter) : ILRewriter → Prop
  | none : Edited s s
  | before (earlier : Edited s s') (spot : s'.Refers pWhere) (outside : s'.OutsideSwitch platform pWhere)
      (importable : platform.Importable opcode) (notSwitch : opcode ≠ CEE_SWITCH) (operand : Nat) :
      Edited s (s'.InsertNewBefore platform pWhere opcode operand)
  | after (earlier : Edited s s') (spot : s'.Refers pWhere) (outside : s'.OutsideSwitch platform (s'.m_pNext pWhere))
      (importable : platform.Importable opcode) (notSwitch : opcode ≠ CEE_SWITCH) (operand : Nat) :
      Edited s (s'.InsertNewAfter platform pWhere opcode operand)

end Edits

section Runs

variable {platform : Platform} {s : ILRewriter}

theorem Holds.cutBefore (holds : s.Holds nodes) (spot : s.Refers p) :
    ∃ before after, nodes = before ++ after ∧ p = rightOf m_IL (after.map Instr.ptr) := by
  rcases List.mem_cons.mp (spot.mem holds) with rfl | listed
  · exact ⟨nodes, [], by simp, rfl⟩
  · obtain ⟨node, member, rfl⟩ := List.mem_map.mp listed
    obtain ⟨before, after, rfl⟩ := List.append_of_mem member
    exact ⟨before, node :: after, rfl, rfl⟩

theorem Holds.cutAfter (holds : s.Holds nodes) (spot : s.Refers p) :
    ∃ before after, nodes = before ++ after ∧ p = leftOf m_IL (before.map Instr.ptr) := by
  rcases List.mem_cons.mp (spot.mem holds) with rfl | listed
  · exact ⟨[], nodes, by simp, rfl⟩
  · obtain ⟨node, member, rfl⟩ := List.mem_map.mp listed
    obtain ⟨before, after, rfl⟩ := List.append_of_mem member
    exact ⟨before ++ [node], after, by simp, by simp⟩

private theorem between_of_outside (holds : s.Holds (before ++ after))
    (outside : s.OutsideSwitch platform (rightOf m_IL (after.map Instr.ptr))) :
    ∀ node ∈ after.head?, node.opcode ≠ platform.CEE_SWITCH_ARG := by
  intro node first
  rw [OutsideSwitch, holds.listing_eq] at outside
  cases after with
  | nil => simp at first
  | cons head rest =>
    obtain rfl : head = node := by simpa using first
    exact outside head (by simp) rfl

private theorem Holds.grow {s' : ILRewriter} {opcode operand : Nat} (holds : s.Holds (before ++ after))
    (blocked : WellBlocked platform (before ++ after))
    (outside : s.OutsideSwitch platform (rightOf m_IL (after.map Instr.ptr)))
    (importable : platform.Importable opcode) (notSwitch : opcode ≠ CEE_SWITCH)
    (inserted : s'.Holds (before ++ ⟨s.brk, opcode, operand⟩ :: after)) :
    ∃ nodes', s'.Holds nodes' ∧ WellBlocked platform nodes' ∧ (before ++ after).Sublist nodes' :=
  ⟨_, inserted, blocked.insert (between_of_outside holds outside) importable notSwitch,
    (List.Sublist.refl before).append (List.sublist_cons_self ..)⟩

/-- Edits add nodes and take none away, keep instructions whole and the clauses as they are. -/
theorem Edited.holds {s' : ILRewriter} (edited : Edited platform s s') (holds : s.Holds nodes)
    (blocked : WellBlocked platform nodes) :
    (∃ nodes', s'.Holds nodes' ∧ WellBlocked platform nodes' ∧ nodes.Sublist nodes') ∧ s'.m_pEH = s.m_pEH := by
  induction edited with
  | none => exact ⟨⟨nodes, holds, blocked, .refl nodes⟩, rfl⟩
  | @before s' pWhere opcode earlier spot outside importable notSwitch operand ih =>
    obtain ⟨⟨nodes', held, whole, kept⟩, clauses⟩ := ih
    obtain ⟨front, back, rfl, rfl⟩ := held.cutBefore spot
    have inserted := held.insertBefore platform opcode operand
    rw [← freshNode_eq] at inserted
    obtain ⟨nodes'', grown, whole', more⟩ := held.grow whole outside importable notSwitch inserted
    exact ⟨⟨nodes'', grown, whole', kept.trans more⟩, clauses⟩
  | @after s' pWhere opcode earlier spot outside importable notSwitch operand ih =>
    obtain ⟨⟨nodes', held, whole, kept⟩, clauses⟩ := ih
    obtain ⟨front, back, rfl, rfl⟩ := held.cutAfter spot
    have ring := held.ring
    rw [List.map_append] at ring
    have next : s'.m_pNext (leftOf m_IL (front.map Instr.ptr)) = rightOf m_IL (back.map Instr.ptr) := ring.cut.1
    rw [next] at outside
    have inserted := held.insertAfter platform opcode operand
    rw [← freshNode_eq] at inserted
    obtain ⟨nodes'', grown, whole', more⟩ := held.grow whole outside importable notSwitch inserted
    exact ⟨⟨nodes'', grown, whole', kept.trans more⟩, clauses⟩

end Runs

end ILRewriter

/-- What ImportIL makes of exported code: `loaded` is the list in front of the resolution
of targets, where a branch holds the offset it leads to, and `decoded` the one behind it. -/
structure Decodes (platform : Platform) (edited : ILRewriter) (result : ILRewriter.Exported)
    (loaded decoded : ILRewriter) : Prop where
  loop : ∃ fBranch, { ILRewriter.new with m_CodeSize := result.body.Code.length }.ImportStart.ImportLoop platform
    result.body.Code result.body.Code.length false 0 = .ok (loaded, fBranch)
  run : { ILRewriter.new with m_CodeSize := result.body.Code.length }.ImportIL platform result.body.Code = .ok decoded
  nodes : List.Forall₂ (SameNode platform result.rewriter.m_offset) edited.listing loaded.listing
  resolved : decoded.listing = loaded.listing.map (resolved platform decoded.GetInstrFromOffset)
  heads : List.Forall₂ (fun node loadedNode => node.opcode ≠ platform.CEE_SWITCH_ARG →
    decoded.GetInstrFromOffset (result.rewriter.m_offset node.ptr) = loadedNode.ptr) edited.listing loaded.listing
  codeEnd : decoded.GetInstrFromOffset (result.rewriter.m_offset m_IL) = m_IL

section Decode

open ILRewriter

variable {platform : Platform} {s : ILRewriter}

theorem new_holds : ILRewriter.new.Holds [] :=
  ⟨Links.isRing_nil rfl rfl, by simp, by simp, by simp, by decide, rfl⟩

private theorem Widened.external (widening : Widened platform node node')
    (external : node.opcode ≠ platform.CEE_SWITCH_ARG) : node'.opcode ≠ platform.CEE_SWITCH_ARG := by
  rcases widening.2.2 with same | ⟨short, long⟩
  · rwa [same]
  · rw [long]
    exact (widened_importable short).1.ne_switchArg

private theorem forall₂_heads {nodes nodes' decoded : List Instr} (found : Ptr → Ptr)
    (widening : List.Forall₂ (Widened platform) nodes nodes')
    (heads : List.Forall₂ (fun node decoded => node.opcode ≠ platform.CEE_SWITCH_ARG → found node.ptr = decoded.ptr)
      nodes' decoded) :
    List.Forall₂ (fun node decoded => node.opcode ≠ platform.CEE_SWITCH_ARG → found node.ptr = decoded.ptr)
      nodes decoded := by
  induction widening generalizing decoded with
  | nil => exact heads
  | cons here _ ih =>
    cases heads with
    | cons same others =>
      refine .cons (fun external => ?_) (ih others)
      rw [← here.1]
      exact same (here.external external)

private theorem SameNode.congr {starts starts' : Ptr → Nat} (same : SameNode platform starts node decoded)
    (agree : node.isBranch platform → starts' node.operand = starts node.operand) :
    SameNode platform starts' node decoded :=
  ⟨same.opcode, fun branch => (same.target branch).trans (agree branch).symm, same.value⟩

private theorem sameNodes_congr {nodes decoded : List Instr} {starts starts' : Ptr → Nat}
    (agree : ∀ node ∈ nodes, node.isBranch platform → starts' node.operand = starts node.operand)
    (same : List.Forall₂ (SameNode platform starts) nodes decoded) :
    List.Forall₂ (SameNode platform starts') nodes decoded := by
  induction same with
  | nil => exact .nil
  | cons here _ ih =>
    obtain ⟨first, agree⟩ := List.forall_mem_cons.mp agree
    exact .cons (here.congr first) (ih agree)

private theorem forall₂_offsets {nodes decoded : List Instr} {starts starts' : Ptr → Nat} {found : Nat → Ptr}
    (agree : ∀ node ∈ nodes, starts' node.ptr = starts node.ptr)
    (heads : List.Forall₂ (fun node decoded => node.opcode ≠ platform.CEE_SWITCH_ARG →
      found (starts node.ptr) = decoded.ptr) nodes decoded) :
    List.Forall₂ (fun node decoded => node.opcode ≠ platform.CEE_SWITCH_ARG → found (starts' node.ptr) = decoded.ptr)
      nodes decoded := by
  induction heads with
  | nil => exact .nil
  | cons here _ ih =>
    obtain ⟨first, agree⟩ := List.forall_mem_cons.mp agree
    refine .cons (fun external => ?_) (ih agree)
    rw [first]
    exact here external

/-- ImportIL on the code of a list made of whole instructions. -/
private theorem reads_back {code : List UInt8} {instrs : List RawInstr} (valid : ∀ instr ∈ instrs, instr.Valid platform)
    (bytes : code = listingBytes platform instrs) (small : code.length < 2 ^ 32) :
    let start := { ILRewriter.new with m_CodeSize := code.length }
    ∃ loaded decoded, (∃ fBranch, start.ImportStart.ImportLoop platform code code.length false 0 =
      .ok (loaded, fBranch)) ∧
      start.ImportIL platform code = .ok decoded ∧ loaded.listing = loadedNodes platform (m_IL + 1) 0 instrs ∧
      decoded.listing = loaded.listing.map (resolved platform decoded.GetInstrFromOffset) ∧
      decoded.GetInstrFromOffset = startNode platform instrs := by
  intro start
  have empty : start.Holds [] := ⟨new_holds.ring, by simp, by simp, by simp, new_holds.hub_lt, new_holds.count⟩
  have loop : start.ImportStart.ImportLoop platform code code.length false 0 =
      .ok (start.ImportStart.loadAll platform 0 instrs, false || instrs.any (RawInstr.hasTargets platform)) :=
    (ImportLoop_eq_ok_iff rfl small (Nat.zero_le _) (Nat.le_add_left ..)).mpr ⟨instrs, valid, bytes, rfl⟩
  have held := (ImportStart_holds empty).loadAll platform 0 instrs
  obtain ⟨decoded, run, imported⟩ :=
    ImportIL_of_listing empty rfl valid (by rw [← bytes]) (by rw [← bytes]; exact small)
  rw [← bytes] at run
  have listing : (start.ImportStart.loadAll platform 0 instrs).listing = loadedNodes platform (m_IL + 1) 0 instrs :=
    held.listing_eq
  refine ⟨_, decoded, ⟨_, loop⟩, run, listing, ?_, imported.table⟩
  rw [imported.holds.listing_eq, listing, imported.table, importedNodes]

/-- Decoding gives the exported list back. -/
theorem decodes_of_assembled (holds : s.Holds nodes) (closed : Closed platform nodes)
    (blocked : WellBlocked platform nodes) (assembled : Assembled platform nodes nodes' s result) :
    ∃ loaded decoded, Decodes platform s result loaded decoded := by
  have laid := assembled.laid
  have ptrs := widened_ptrs assembled.widening
  obtain ⟨blocks, formed, rfl⟩ := blocked.widened assembled.widening
  set starts := startOf platform (blockNodes blocks) with starts_eq
  set instrs := rawBlocks platform starts 0 blocks with instrs_eq
  have code : result.body.Code = listingBytes platform instrs := laid.code.trans (encode_blocks formed 0 0)
  have total : result.body.Code.length = totalSize platform (blockNodes blocks) := by
    rw [laid.code, length_encodeFrom]
  have room := outputRoom_lt nodes
  have fits := laid.fits
  have small : result.body.Code.length < 2 ^ 32 := by omega
  have smallStart (node : Instr) : starts node.operand < 2 ^ 32 := by
    have inside : starts node.operand ≤ totalSize platform (blockNodes blocks) := startOf_le ..
    omega
  have offsets : ∀ p ∈ m_IL :: nodes.map Instr.ptr, result.rewriter.m_offset p = starts p := by
    rw [← ptrs]
    exact laid.starts
  have same := forall₂_sameNode assembled.widening
    (sameNode_blocks formed (fun node _ => smallStart node) laid.near (m_IL + 1))
  have heads := forall₂_heads (fun p => startNode platform instrs (starts p)) assembled.widening
    (lookup_blocks blocks [] blocks rfl formed (by rw [ptrs]; exact holds.ptrs_nodup))
  obtain ⟨loaded, decoded, loop, run, listing, resolution, table⟩ := reads_back (rawBlocks_valid formed 0) code small
  refine ⟨loaded, decoded, loop, run, ?_, resolution, ?_, ?_⟩
  · rw [holds.listing_eq, listing]
    exact sameNodes_congr (fun node member branch => offsets _ (closed node member branch)) same
  · rw [holds.listing_eq, listing, table]
    exact forall₂_offsets (fun node member => offsets _ (List.mem_cons_of_mem _ (List.mem_map_of_mem member))) heads
  · have fresh : m_IL ∉ (blockNodes blocks).map Instr.ptr := by
      rw [ptrs]
      exact holds.ring.hub_notMem
    have size : (listingBytes platform instrs).length = totalSize platform (blockNodes blocks) := by rw [← code, total]
    rw [table, offsets _ (List.mem_cons_self ..), starts_eq, startOf_absent fresh, ← size, startNode_end]

end Decode

open ILRewriter in
/-- Whatever instructions are inserted behind Import, decoding the exported code gives them
back one by one, and every displacement leads to the node it was written for. -/
theorem export_decodes_edited (accepted : Import platform body = .ok imported)
    (edited : Edited platform imported s)
    (closed : ∀ node ∈ s.listing, node.isBranch platform → s.Refers node.operand) :
    (∀ result, s.Export platform = .ok result → ∃ loaded decoded, Decodes platform s result loaded decoded) ∧
      (imported.Resolved platform → 10 * s.listing.length < 2 ^ 31 → ∃ result, s.Export platform = .ok result) := by
  obtain ⟨instrs, import_⟩ := Import_eq_ok accepted
  obtain ⟨⟨nodes, holds, blocked, kept⟩, clauses⟩ :=
    edited.holds import_.holds (importedNodes_wellBlocked import_.valid)
  have listing := holds.listing_eq
  have inside : Closed platform nodes := by
    intro node member branch
    rw [← listing] at member
    exact (closed node member branch).mem holds
  refine ⟨fun result run => ?_, fun targets small => ?_⟩
  · obtain ⟨nodes', assembled⟩ := Export_eq_ok holds inside run
    exact decodes_of_assembled holds inside blocked assembled
  · rw [listing] at small
    refine Export_succeeds holds inside (fun clause member p pointer => ?_) (by omega)
    rw [clauses] at member
    -- The clauses point at nodes of the imported list, which are all still there.
    rcases List.mem_cons.mp ((targets.clauses clause member p pointer).mem import_.holds) with hub | listed
    · rw [hub]
      exact holds.deref_hub
    · obtain ⟨node, inside, rfl⟩ := List.mem_map.mp listed
      exact holds.deref (kept.subset inside)

open ILRewriter in
/-- A jump to the code end behind a `nop`. -/
theorem export_decodes_edited_branch : ∃ imported result loaded decoded,
    Import Ecma335.platform (nops 1 (by decide)) = .ok imported ∧
    (imported.InsertNewBefore Ecma335.platform m_IL CEE_BR_S m_IL).Export Ecma335.platform = .ok result ∧
    Decodes Ecma335.platform (imported.InsertNewBefore Ecma335.platform m_IL CEE_BR_S m_IL) result loaded decoded := by
  obtain ⟨imported, run, body, resolved⟩ := nops_imported Ecma335.platform 1 (by decide)
  have closed := resolved.closed body.holds
  have outside : imported.OutsideSwitch Ecma335.platform m_IL := by
    intro node member same
    rw [body.holds.listing_eq] at member
    exact absurd same (body.holds.ptr_ne_hub member)
  have edited := Edited.before .none (.inl rfl) outside (Ecma335.platform.importable_oneByte (by decide))
    (show CEE_BR_S ≠ CEE_SWITCH by decide) m_IL
  have inserted : (imported.InsertNewBefore Ecma335.platform m_IL CEE_BR_S m_IL).Holds
      (importedNodes Ecma335.platform (List.replicate 1 (.plain CEE_NOP 0)) ++ [⟨imported.brk, CEE_BR_S, m_IL⟩]) := by
    have whole : imported.Holds (importedNodes Ecma335.platform (List.replicate 1 (.plain CEE_NOP 0)) ++ []) := by
      simpa using body.holds
    have last := whole.insertBefore Ecma335.platform CEE_BR_S m_IL
    rwa [← freshNode_eq] at last
  obtain ⟨decodes, exports⟩ := export_decodes_edited run edited fun node member branch => by
    rw [inserted.listing_eq] at member
    rw [Refers, inserted.instrs_eq, ← List.mem_cons]
    rcases List.mem_append.mp member with old | new
    · exact List.cons_subset_cons _ (by simp) (closed node old branch)
    · obtain rfl := List.mem_singleton.mp new
      exact List.mem_cons_self ..
  have small : 10 * (imported.InsertNewBefore Ecma335.platform m_IL CEE_BR_S m_IL).listing.length < 2 ^ 31 := by
    rw [inserted.listing_eq, List.length_append, List.length_singleton]
    decide
  obtain ⟨result, exported⟩ := exports resolved small
  obtain ⟨loaded, decoded, decoding⟩ := decodes result exported
  exact ⟨imported, result, loaded, decoded, run, exported, decoding⟩

end ClrProfiling
