import ClrProfiling.IL.Boundary

/-! What Import accepts, how it refuses the rest, and which of its references are resolved. -/

namespace ClrProfiling

open LinkedRing Word

section References

def EHInfo.isFilter (ehInfo : EHInfo) : Prop := ehInfo.Flags &&& COR_ILEXCEPTION_CLAUSE_FILTER ≠ 0

instance (ehInfo : EHInfo) : Decidable ehInfo.isFilter := inferInstanceAs (Decidable (_ ≠ _))

/-- The positions of the code a clause refers to. -/
def EHInfo.positions (ehInfo : EHInfo) : List Nat :=
  [ehInfo.TryOffset.toNat, (ehInfo.TryOffset + ehInfo.TryLength).toNat, ehInfo.HandlerOffset.toNat,
    (ehInfo.HandlerOffset + ehInfo.HandlerLength).toNat] ++
    if ehInfo.isFilter then [ehInfo.ClassTokenOrFilterOffset.toNat] else []

/-- The pointers of a clause. -/
def EHClause.pointers (clause : EHClause) : List Ptr :=
  [clause.m_pTryBegin, clause.m_pTryEnd, clause.m_pHandlerBegin, clause.m_pHandlerEnd] ++
    if clause.m_Flags &&& COR_ILEXCEPTION_CLAUSE_FILTER ≠ 0 then [clause.m_pFilter] else []

/-- A node of the instruction list, or the sentinel. -/
def ILRewriter.Refers (s : ILRewriter) (p : Ptr) : Prop := p = m_IL ∨ p ∈ s.instrs

/-- Every reference of a rewriter is resolved. -/
structure ILRewriter.Resolved (platform : Platform) (s : ILRewriter) : Prop where
  targets : ∀ node ∈ s.listing, node.isBranch platform → s.Refers node.operand
  clauses : ∀ clause ∈ s.m_pEH, ∀ p ∈ clause.pointers, s.Refers p

end References

namespace ILRewriter

section Refusal

variable {platform : Platform} {pIL : List UInt8} {failure : Failure}

private theorem fetch_ne_error (bound : offset + width ≤ pIL.length) : fetch pIL offset width ≠ .error failure := by
  simp [fetch, bound]

private theorem readOpcode_refuses (inside : startOffset < pIL.length)
    (run : readOpcode platform pIL pIL.length startOffset = .error failure) : failure = .COR_E_INVALIDPROGRAM := by
  unfold readOpcode at run
  rcases Outcome.bind_eq_error_iff.mp run with first | ⟨⟨opcode, offset⟩, -, checks⟩
  · unfold opcodeAt at first
    rcases Outcome.bind_eq_error_iff.mp first with outside | ⟨opcode, -, second⟩
    · exact absurd outside (fetch_ne_error inside)
    · dsimp only at second
      split at second
      · rcases Outcome.guard_eq_error_iff.mp second with ⟨-, rfl⟩ | ⟨within, second⟩
        · rfl
        · rcases Outcome.bind_eq_error_iff.mp second with outside | ⟨_, -, done⟩
          · exact absurd outside (fetch_ne_error (by omega))
          · cases done
      · cases second
  · rcases Outcome.guard_eq_error_iff.mp checks with ⟨-, rfl⟩ | ⟨-, checks⟩
    · rfl
    · rcases Outcome.guard_eq_error_iff.mp checks with ⟨-, rfl⟩ | ⟨-, done⟩
      · rfl
      · cases done

private theorem ImportSwitchArgs_refuses {s : ILRewriter} (size : s.m_CodeSize = pIL.length)
    (run : s.ImportSwitchArgs platform pIL base nTargets offset = .error failure) :
    failure = .COR_E_INVALIDPROGRAM := by
  induction nTargets generalizing s offset with
  | zero => cases run
  | succ nTargets ih =>
    rw [ImportSwitchArgs] at run
    rcases Outcome.guard_eq_error_iff.mp run with ⟨-, rfl⟩ | ⟨within, rest⟩
    · rfl
    · rcases Outcome.bind_eq_error_iff.mp rest with outside | ⟨relative, -, rest⟩
      · exact absurd outside (fetch_ne_error (by omega))
      · exact ih (by exact size) rest

private theorem ImportOperand_refuses {s : ILRewriter} (size : s.m_CodeSize = pIL.length)
    (within : offset + operandWidth platform opcode ≤ pIL.length)
    (run : s.ImportOperand platform pIL fBranch (platform.s_OpCodeFlags opcode) pInstr offset = .error failure) :
    failure = .COR_E_INVALIDPROGRAM := by
  have flags := platform.flags_cases opcode
  simp only [List.mem_cons, List.not_mem_nil, or_false] at flags
  unfold operandWidth at within
  rcases flags with flags | flags | flags | flags | flags | flags | flags | flags <;>
    simp only [flags, ImportOperand, OPCODEFLAGS_SizeMask] at run within
  case inl => cases run
  case inr.inr.inr.inr.inr.inr.inr =>
    rcases Outcome.guard_eq_error_iff.mp run with ⟨-, rfl⟩ | ⟨inside, rest⟩
    · rfl
    · rcases Outcome.bind_eq_error_iff.mp rest with outside | ⟨count, -, rest⟩
      · exact absurd outside (fetch_ne_error (by omega))
      · rcases Outcome.bind_eq_error_iff.mp rest with failed | ⟨_, -, done⟩
        · exact ImportSwitchArgs_refuses (by exact size) failed
        · cases done
  all_goals
    rcases Outcome.bind_eq_error_iff.mp run with outside | ⟨value, -, done⟩
    · exact absurd outside (fetch_ne_error within)
    · cases done

private theorem ImportInstr_refuses {s : ILRewriter} (size : s.m_CodeSize = pIL.length)
    (small : pIL.length + 12 < 2 ^ 32) (inside : startOffset < pIL.length)
    (run : s.ImportInstr platform pIL fBranch startOffset = .error failure) : failure = .COR_E_INVALIDPROGRAM := by
  unfold ImportInstr at run
  rw [size] at run
  rcases Outcome.bind_eq_error_iff.mp run with failed | ⟨⟨opcode, offset⟩, read, rest⟩
  · exact readOpcode_refuses inside failed
  · rcases Outcome.guard_eq_error_iff.mp rest with ⟨-, rfl⟩ | ⟨within, rest⟩
    · rfl
    · obtain ⟨-, stands, rfl⟩ := readOpcode_eq_ok_iff.mp read
      have bound := stands.bound
      have narrow : operandWidth platform opcode ≤ 8 := by
        have flags := platform.flags_cases opcode
        simp only [List.mem_cons, List.not_mem_nil, or_false] at flags
        unfold operandWidth
        rcases flags with flags | flags | flags | flags | flags | flags | flags | flags <;> rw [flags] <;> decide
      rw [← operandWidth, wrap32_of_lt (by omega)] at within
      rcases Outcome.bind_eq_error_iff.mp rest with failed | ⟨_, -, done⟩
      · exact ImportOperand_refuses (by exact size) (Nat.le_of_not_lt within) failed
      · cases done

private theorem ImportLoop_refuses {s : ILRewriter} (size : s.m_CodeSize = pIL.length)
    (small : pIL.length + 12 < 2 ^ 32) (enough : pIL.length ≤ offset + fuel)
    (run : s.ImportLoop platform pIL fuel fBranch offset = .error failure) : failure = .COR_E_INVALIDPROGRAM := by
  induction fuel generalizing s fBranch offset with
  | zero =>
    rw [ImportLoop, size, if_neg (by omega)] at run
    cases run
  | succ fuel ih =>
    rw [ImportLoop, size] at run
    by_cases inside : offset < pIL.length
    · rw [if_pos inside] at run
      cases turn : s.ImportInstr platform pIL fBranch offset with
      | error failed =>
        rw [turn] at run
        cases run
        exact ImportInstr_refuses size small inside turn
      | ok next =>
        rw [turn] at run
        obtain ⟨instr, -, -, rfl⟩ := (ImportInstr_eq_ok_iff size (by omega)).mp turn
        have positive := instr.size_pos platform
        exact ih (by simpa using size) (by omega) run
    · rw [if_neg inside] at run
      cases run

/-- ImportIL refuses code with one failure only. -/
theorem ImportIL_refuses {s : ILRewriter} (empty : s.Holds []) (first : s.brk = m_IL + 1)
    (size : s.m_CodeSize = pIL.length) (small : pIL.length + 12 < 2 ^ 32)
    (run : s.ImportIL platform pIL = .error failure) : failure = .COR_E_INVALIDPROGRAM := by
  rcases Outcome.bind_eq_error_iff.mp run with failed | ⟨loaded, loop, -⟩
  · exact ImportLoop_refuses (s := s.ImportStart) (by exact size) small (by omega) failed
  · obtain ⟨instrs, valid, bytes, -⟩ := (ImportLoop_eq_ok_iff (s := s.ImportStart)
      (by exact size) (by omega) (Nat.zero_le _) (by omega)).mp loop
    rw [List.drop_zero] at bytes
    subst bytes
    obtain ⟨s', accepted, -⟩ := ImportIL_of_listing empty first valid size (by omega)
    rw [accepted] at run
    cases run

end Refusal

section Clauses

variable {platform : Platform} {instrs : List RawInstr}

theorem importedNodes_ptrs : (importedNodes platform instrs).map Instr.ptr =
    List.range' (m_IL + 1) (instrs.map RawInstr.nodes).sum := by
  rw [← @loadedNodes_ptrs platform (m_IL + 1) 0, importedNodes, List.map_map]
  exact List.map_congr_left fun node _ => resolved_ptr ..

/-- A lookup gives a node or the sentinel exactly at the boundaries. -/
theorem startNode_refers_iff : (startNode platform instrs position = m_IL ∨
      startNode platform instrs position ∈ (importedNodes platform instrs).map Instr.ptr) ↔
    Boundary platform instrs position := by
  rw [importedNodes_ptrs]
  constructor
  · intro refers
    by_contra outside
    rw [startNode_elsewhere outside] at refers
    rcases refers with hub | listed
    · exact absurd hub (by decide)
    · have low := (List.mem_range'_1.mp listed).1
      exact absurd low (by decide)
  · rintro ⟨before, after, rfl, rfl⟩
    cases after with
    | nil =>
      rw [List.append_nil]
      exact .inl (startNode_end before)
    | cons instr rest =>
      right
      rw [startNode_start, List.mem_range'_1, List.map_append, List.sum_append, List.map_cons, List.sum_cons]
      have positive : 0 < instr.nodes := by cases instr <;> simp [RawInstr.nodes]
      omega

/-- The node in front of `p`, or in front of the code end. -/
def nodeBefore (nodes : List Instr) (p : Ptr) : Ptr := leftOf m_IL ((nodes.map Instr.ptr).takeWhile (· ≠ p))

/-- The clause of an imported body. -/
def importedClause (platform : Platform) (instrs : List RawInstr) (ehInfo : EHInfo) : EHClause where
  m_Flags := ehInfo.Flags
  m_pTryBegin := startNode platform instrs ehInfo.TryOffset.toNat
  m_pTryEnd := startNode platform instrs (ehInfo.TryOffset + ehInfo.TryLength).toNat
  m_pHandlerBegin := startNode platform instrs ehInfo.HandlerOffset.toNat
  m_pHandlerEnd := nodeBefore (importedNodes platform instrs)
    (startNode platform instrs (ehInfo.HandlerOffset + ehInfo.HandlerLength).toNat)
  m_ClassToken := if ehInfo.isFilter then 0 else ehInfo.ClassTokenOrFilterOffset
  m_pFilter := if ehInfo.isFilter then startNode platform instrs ehInfo.ClassTokenOrFilterOffset.toNat else nullptr

private theorem deref_startNode {s : ILRewriter} (holds : s.Holds (importedNodes platform instrs))
    (boundary : Boundary platform instrs position) :
    s.deref (startNode platform instrs position) = .ok (startNode platform instrs position) := by
  rcases startNode_refers_iff.mpr boundary with hub | listed
  · rw [hub]
    exact holds.deref_hub
  · obtain ⟨node, member, same⟩ := List.mem_map.mp listed
    rw [← same]
    exact holds.deref member

/-- A clause is imported exactly where its handler ends at a boundary. -/
theorem ImportClause_eq_ok_iff {s : ILRewriter} (holds : s.Holds (importedNodes platform instrs))
    (table : s.GetInstrFromOffset = startNode platform instrs) (ehInfo : EHInfo) :
    s.ImportClause ehInfo = .ok clause ↔
      Boundary platform instrs (ehInfo.HandlerOffset + ehInfo.HandlerLength).toNat ∧
        clause = importedClause platform instrs ehInfo := by
  unfold ImportClause
  rw [table]
  by_cases boundary : Boundary platform instrs (ehInfo.HandlerOffset + ehInfo.HandlerLength).toNat
  · have before : s.m_pPrev (startNode platform instrs (ehInfo.HandlerOffset + ehInfo.HandlerLength).toNat) =
        nodeBefore (importedNodes platform instrs)
          (startNode platform instrs (ehInfo.HandlerOffset + ehInfo.HandlerLength).toNat) :=
      holds.ring.prev_takeWhile (List.mem_cons.mpr (startNode_refers_iff.mpr boundary))
    rw [deref_startNode holds boundary, Outcome.ok_bind, Outcome.pure_eq, Except.ok.injEq, before]
    exact ⟨fun same => ⟨boundary, same.symm⟩, fun same => same.2.symm⟩
  · have dangling : s.deref (startNode platform instrs (ehInfo.HandlerOffset + ehInfo.HandlerLength).toNat) =
        .error .invalidPointer := by
      rw [startNode_elsewhere boundary, deref, if_neg (fun inside => absurd inside.1 (by decide))]
    rw [dangling, Outcome.error_bind]
    refine iff_of_false (fun failed => ?_) fun accepted => boundary accepted.1
    cases failed

theorem ImportClause_refuses {s : ILRewriter} {ehInfo : EHInfo} {failure : Failure}
    (run : s.ImportClause ehInfo = .error failure) : failure = .invalidPointer := by
  rcases Outcome.bind_eq_error_iff.mp run with failed | ⟨_, -, done⟩
  · exact deref_eq_error failed
  · cases done

end Clauses

section Whole

variable {platform : Platform} {instrs : List RawInstr}

/-- What Import leaves behind of a method body. -/
structure ImportedBody (platform : Platform) (body : MethodBody) (instrs : List RawInstr) (s : ILRewriter) : Prop where
  valid : ∀ instr ∈ instrs, instr.Valid platform
  code : body.Code = listingBytes platform instrs
  holds : s.Holds (importedNodes platform instrs)
  brk : s.brk = m_IL + 1 + (importedNodes platform instrs).length
  maxStack : s.m_maxStack ≡
    body.MaxStack + ((importedNodes platform instrs).map fun node => platform.k_rgnStackPushes node.opcode).sum
    [MOD 2 ^ 32]
  flags : s.m_flags = body.Flags &&& CorILMethod_InitLocals
  localVarSig : s.m_tkLocalVarSig = body.LocalVarSigTok
  handlers : ∀ ehInfo ∈ body.EH, Boundary platform instrs (ehInfo.HandlerOffset + ehInfo.HandlerLength).toNat
  clauses : s.m_pEH = body.EH.map (importedClause platform instrs)

theorem ImportHeader_holds (body : MethodBody) : (ImportHeader body).Holds [] where
  ring := Links.isRing_nil rfl rfl
  opcode := by simp
  operand := by simp
  allocated := by simp
  hub_lt := Nat.lt_succ_self m_IL
  count := rfl

private theorem mapM_ImportClause {s : ILRewriter} (holds : s.Holds (importedNodes platform instrs))
    (table : s.GetInstrFromOffset = startNode platform instrs) (pILEH : List EHInfo) :
    pILEH.mapM s.ImportClause = .ok clauses ↔
      (∀ ehInfo ∈ pILEH, Boundary platform instrs (ehInfo.HandlerOffset + ehInfo.HandlerLength).toNat) ∧
        clauses = pILEH.map (importedClause platform instrs) := by
  rw [Outcome.mapM_eq_ok_iff]
  simp only [ImportClause_eq_ok_iff holds table]
  induction pILEH generalizing clauses with
  | nil => cases clauses <;> simp
  | cons ehInfo rest ih =>
    cases clauses with
    | nil => simp
    | cons clause clauses =>
      rw [List.forall₂_cons, ih]
      simp only [List.forall_mem_cons, List.map_cons, List.cons.injEq]
      tauto

private theorem importedBody {body : MethodBody} {s : ILRewriter}
    (valid : ∀ instr ∈ instrs, instr.Valid platform) (code : body.Code = listingBytes platform instrs)
    (imported : Imported platform (ImportHeader body) s instrs)
    (handlers : ∀ ehInfo ∈ body.EH, Boundary platform instrs (ehInfo.HandlerOffset + ehInfo.HandlerLength).toNat) :
    ImportedBody platform body instrs { s with m_pEH := body.EH.map (importedClause platform instrs) } where
  valid
  code
  holds := ⟨imported.holds.ring, imported.holds.opcode, imported.holds.operand, imported.holds.allocated,
    imported.holds.hub_lt, imported.holds.count⟩
  brk := by
    have brk := imported.grown.brk
    rwa [List.length_map] at brk
  maxStack := by
    have pushes := imported.grown.maxStack
    rwa [List.map_map] at pushes
  flags := imported.grown.flags
  localVarSig := imported.grown.localVarSig
  handlers
  clauses := rfl

/-- Import succeeds where the code is a sequence of instructions and every handler ends at a boundary. -/
theorem Import_of_listing {body : MethodBody} (valid : ∀ instr ∈ instrs, instr.Valid platform)
    (code : body.Code = listingBytes platform instrs)
    (handlers : ∀ ehInfo ∈ body.EH, Boundary platform instrs (ehInfo.HandlerOffset + ehInfo.HandlerLength).toNat) :
    ∃ s, Import platform body = .ok s ∧ ImportedBody platform body instrs s := by
  have inImage := body.inImage
  have size : (ImportHeader body).m_CodeSize = (listingBytes platform instrs).length := by rw [← code]; rfl
  obtain ⟨s, run, imported⟩ := ImportIL_of_listing (ImportHeader_holds body) rfl valid size (by rw [← code]; omega)
  refine ⟨_, ?_, importedBody valid code imported handlers⟩
  rw [Import, code, run, Outcome.ok_bind, ImportEH,
    (mapM_ImportClause imported.holds imported.table body.EH).mpr ⟨handlers, rfl⟩]
  rfl

theorem Import_listing {body : MethodBody} (valid : ∀ instr ∈ instrs, instr.Valid platform)
    (code : body.Code = listingBytes platform instrs) (run : Import platform body = .ok s) :
    ImportedBody platform body instrs s := by
  have inImage := body.inImage
  have size : (ImportHeader body).m_CodeSize = (listingBytes platform instrs).length := by rw [← code]; rfl
  obtain ⟨loaded, accepted, imported⟩ :=
    ImportIL_of_listing (ImportHeader_holds body) rfl valid size (by rw [← code]; omega)
  rw [Import, code, accepted, Outcome.ok_bind] at run
  obtain ⟨clauses, mapped, done⟩ := Outcome.bind_eq_ok_iff.mp run
  obtain ⟨handlers, rfl⟩ := (mapM_ImportClause imported.holds imported.table body.EH).mp mapped
  cases done
  exact importedBody valid code imported handlers

/-- Import accepts nothing but sequences of instructions. -/
theorem Import_eq_ok {body : MethodBody} (run : Import platform body = .ok s) :
    ∃ instrs, ImportedBody platform body instrs s := by
  have inImage := body.inImage
  obtain ⟨loaded, accepted, -⟩ := Outcome.bind_eq_ok_iff.mp run
  obtain ⟨instrs, valid, code⟩ := ImportIL_listing rfl (by omega) accepted
  exact ⟨instrs, Import_listing valid code run⟩

/-- The references of an imported body are resolved exactly where they are boundaries. -/
theorem ImportedBody.resolved_iff {body : MethodBody} {s : ILRewriter}
    (imported : ImportedBody platform body instrs s) :
    s.Resolved platform ↔ WellTargeted platform instrs ∧
      ∀ ehInfo ∈ body.EH, ∀ position ∈ ehInfo.positions, Boundary platform instrs position := by
  have refers (position : Nat) : s.Refers (startNode platform instrs position) ↔ Boundary platform instrs position := by
    rw [Refers, imported.holds.instrs_eq]
    exact startNode_refers_iff
  have targets : (∀ node ∈ s.listing, node.isBranch platform → s.Refers node.operand) ↔
      WellTargeted platform instrs := by
    rw [imported.holds.listing_eq, importedNodes_targets]
    simp only [refers, WellTargeted]
  have before (p : Ptr) : s.Refers (nodeBefore (importedNodes platform instrs) p) := by
    rw [Refers, imported.holds.instrs_eq, ← List.mem_cons]
    exact List.cons_subset_cons _ (List.takeWhile_subset _) (leftOf_mem ..)
  have pointers (ehInfo : EHInfo) (member : ehInfo ∈ body.EH) :
      (∀ p ∈ (importedClause platform instrs ehInfo).pointers, s.Refers p) ↔
        ∀ position ∈ ehInfo.positions, Boundary platform instrs position := by
    have handler := imported.handlers ehInfo member
    simp only [EHClause.pointers, EHInfo.positions, importedClause, List.forall_mem_append, List.forall_mem_cons,
      refers, before, handler]
    by_cases filter : ehInfo.isFilter
    · have flag : ehInfo.Flags &&& COR_ILEXCEPTION_CLAUSE_FILTER ≠ 0 := filter
      simp [filter, flag, refers]
    · have flag : ¬ehInfo.Flags &&& COR_ILEXCEPTION_CLAUSE_FILTER ≠ 0 := filter
      simp [filter, flag]
  constructor
  · intro resolved
    refine ⟨targets.mp resolved.targets, fun ehInfo member => (pointers ehInfo member).mp ?_⟩
    exact resolved.clauses _ (imported.clauses ▸ List.mem_map_of_mem member)
  · rintro ⟨wellTargeted, positions⟩
    refine ⟨targets.mpr wellTargeted, fun clause member => ?_⟩
    rw [imported.clauses] at member
    obtain ⟨ehInfo, listed, rfl⟩ := List.mem_map.mp member
    exact (pointers ehInfo listed).mpr (positions ehInfo listed)

end Whole

section Decoder

variable {platform : Platform}

private theorem Imported.table_iff {s s' : ILRewriter} {instrs : List RawInstr}
    (imported : Imported platform s s' instrs)
    (inside : position ≤ s'.m_CodeSize) :
    s'.m_pOffsetToInstr position ≠ nullptr ↔ Boundary platform instrs position := by
  have entry : s'.m_pOffsetToInstr position = startNode platform instrs position := by
    rw [← imported.table, GetInstrFromOffset, if_pos inside]
  rw [entry]
  constructor
  · intro present
    by_contra outside
    exact present (startNode_elsewhere outside)
  · intro boundary missing
    rcases startNode_refers_iff.mpr boundary with hub | listed
    · exact absurd (hub.symm.trans missing) (by decide)
    · rw [missing, importedNodes_ptrs] at listed
      exact absurd (List.mem_range'_1.mp listed).1 (by decide)

/-- ImportIL is a parser of the instruction grammar: one way to fail, no read outside the code, one
node for each instruction and each switch target, and an entry of the offset table for each boundary. -/
theorem ImportIL_parses (platform : Platform) (body : MethodBody) :
    (∀ failure, (ImportHeader body).ImportIL platform body.Code = .error failure →
      failure = .COR_E_INVALIDPROGRAM) ∧
    ((∃ s, (ImportHeader body).ImportIL platform body.Code = .ok s) ↔
      ∃ instrs : List RawInstr, (∀ instr ∈ instrs, instr.Valid platform) ∧ body.Code = listingBytes platform instrs) ∧
    ∀ (s : ILRewriter) (instrs : List RawInstr), (ImportHeader body).ImportIL platform body.Code = .ok s →
      (∀ instr ∈ instrs, instr.Valid platform) → body.Code = listingBytes platform instrs →
        s.listing = importedNodes platform instrs ∧
        s.listing.map Instr.opcode = instrs.flatMap (RawInstr.nodeOpcodes platform) ∧
        s.m_CodeSize = body.Code.length ∧
        ∀ position ≤ s.m_CodeSize, s.m_pOffsetToInstr position ≠ nullptr ↔ Boundary platform instrs position := by
  have inImage := body.inImage
  have accepts (instrs : List RawInstr) (valid : ∀ instr ∈ instrs, instr.Valid platform)
      (code : body.Code = listingBytes platform instrs) :
      ∃ s, (ImportHeader body).ImportIL platform body.Code = .ok s ∧
        Imported platform (ImportHeader body) s instrs := by
    have size : (ImportHeader body).m_CodeSize = (listingBytes platform instrs).length := by rw [← code]; rfl
    rw [code]
    exact ImportIL_of_listing (ImportHeader_holds body) rfl valid size (by rw [← code]; omega)
  refine ⟨?_, ⟨?_, ?_⟩, ?_⟩
  · intro failure refused
    exact ImportIL_refuses (ImportHeader_holds body) rfl rfl inImage refused
  · rintro ⟨s, run⟩
    exact ImportIL_listing rfl (by omega) run
  · rintro ⟨instrs, valid, code⟩
    obtain ⟨s, run, -⟩ := accepts instrs valid code
    exact ⟨s, run⟩
  · intro s instrs run valid code
    obtain ⟨s', run', imported⟩ := accepts instrs valid code
    obtain rfl : s' = s := by
      rw [run'] at run
      exact Except.ok.inj run
    have listing := imported.holds.listing_eq
    refine ⟨listing, ?_, imported.grown.codeSize, fun position inside => imported.table_iff inside⟩
    rw [listing]
    exact importedNodes_opcodes platform instrs

end Decoder

end ILRewriter

end ClrProfiling
