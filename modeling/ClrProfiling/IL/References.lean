import ClrProfiling.IL.Ecma335
import ClrProfiling.IL.Exporting

/-! The references Import leaves behind: to nodes where the method body refers to
instruction boundaries, and to nothing otherwise. -/

namespace ClrProfiling

open LinkedRing Word

/-- Import fails with a HRESULT, or resolves every reference and so keeps itself and
Export from following a null pointer. -/
def ImportSafe (platform : Platform) (body : MethodBody) : Prop :=
  (∃ failure, ILRewriter.Import platform body = .error failure ∧ failure.isHResult) ∨
    ∃ s, ILRewriter.Import platform body = .ok s ∧ s.Resolved platform ∧
      ∀ failure, s.Export platform = .error failure → failure ≠ .invalidPointer

/-- Every reference of a method body is an instruction boundary. -/
structure RefersToBoundaries (platform : Platform) (body : MethodBody) (instrs : List RawInstr) : Prop where
  code : WellTargeted platform instrs
  clauses : ∀ ehInfo ∈ body.EH, ∀ position ∈ ehInfo.positions, Boundary platform instrs position

namespace ILRewriter

variable {platform : Platform} {instrs : List RawInstr} {body : MethodBody}

theorem Refers.mem {s : ILRewriter} (refers : s.Refers p) (holds : s.Holds nodes) :
    p ∈ m_IL :: nodes.map Instr.ptr := by
  rw [← holds.instrs_eq]
  exact List.mem_cons.mpr refers

theorem Resolved.closed {s : ILRewriter} (resolved : s.Resolved platform) (holds : s.Holds nodes) :
    Closed platform nodes := by
  intro node member branch
  rw [← holds.listing_eq] at member
  exact (resolved.targets node member branch).mem holds

theorem Resolved.deref {s : ILRewriter} (resolved : s.Resolved platform) (holds : s.Holds nodes) :
    ∀ clause ∈ s.m_pEH, ∀ p ∈ clause.pointers, s.deref p = .ok p := by
  intro clause member p pointer
  rcases List.mem_cons.mp ((resolved.clauses clause member p pointer).mem holds) with hub | listed
  · rw [hub]
    exact holds.deref_hub
  · obtain ⟨node, listed, same⟩ := List.mem_map.mp listed
    rw [← same]
    exact holds.deref listed

private theorem safe_of_boundaries (valid : ∀ instr ∈ instrs, instr.Valid platform)
    (code : body.Code = listingBytes platform instrs) (boundaries : RefersToBoundaries platform body instrs) :
    ImportSafe platform body := by
  have handlers : ∀ ehInfo ∈ body.EH, Boundary platform instrs (ehInfo.HandlerOffset + ehInfo.HandlerLength).toNat :=
    fun ehInfo member => boundaries.clauses ehInfo member _ (by simp [EHInfo.positions])
  obtain ⟨s, run, imported⟩ := Import_of_listing valid code handlers
  have resolved := imported.resolved_iff.mpr ⟨boundaries.code, boundaries.clauses⟩
  refine .inr ⟨s, run, resolved, fun failure failed => ?_⟩
  exact Export_refuses imported.holds (resolved.closed imported.holds) (resolved.deref imported.holds) failed

private theorem safe_of_refused (refused : ¬∃ instrs : List RawInstr, (∀ instr ∈ instrs, instr.Valid platform) ∧
    body.Code = listingBytes platform instrs) : ImportSafe platform body := by
  have inImage := body.inImage
  cases run : (ImportHeader body).ImportIL platform body.Code with
  | ok s => exact absurd (ImportIL_listing rfl (by omega) run) refused
  | error failure =>
    have reason := ImportIL_refuses (ImportHeader_holds body) rfl rfl body.inImage run
    refine .inl ⟨failure, ?_, by rw [reason]; rfl⟩
    rw [Import, run]
    rfl

/-- On complete encodings nothing but resolved references makes Import safe. -/
theorem boundaries_of_safe (valid : ∀ instr ∈ instrs, instr.Valid platform)
    (code : body.Code = listingBytes platform instrs) (safe : ImportSafe platform body) :
    RefersToBoundaries platform body instrs := by
  have inImage := body.inImage
  have size : (ImportHeader body).m_CodeSize = (listingBytes platform instrs).length := by rw [← code]; rfl
  obtain ⟨loaded, accepted, imported⟩ :=
    ImportIL_of_listing (ImportHeader_holds body) rfl valid size (by rw [← code]; omega)
  rw [← code] at accepted
  rcases safe with ⟨failure, run, hresult⟩ | ⟨s, run, resolved, -⟩
  · rw [Import, accepted, Outcome.ok_bind] at run
    rcases Outcome.bind_eq_error_iff.mp run with failed | ⟨_, -, done⟩
    · have reason : failure = .invalidPointer := by
        obtain ⟨ehInfo, failed⟩ := Outcome.mapM_eq_error failed
        exact ImportClause_refuses failed
      rw [reason] at hresult
      exact absurd hresult (by decide)
    · cases done
  · obtain ⟨targets, clauses⟩ := (Import_listing valid code run).resolved_iff.mp resolved
    exact ⟨targets, clauses⟩

end ILRewriter

/-- Import is safe exactly on the bodies that are no sequence of instructions, and on
those whose references are all instruction boundaries. -/
theorem importSafe_iff (platform : Platform) (body : MethodBody) :
    ImportSafe platform body ↔ ∀ instrs : List RawInstr, (∀ instr ∈ instrs, instr.Valid platform) →
      body.Code = listingBytes platform instrs → RefersToBoundaries platform body instrs := by
  constructor
  · intro safe instrs valid code
    exact ILRewriter.boundaries_of_safe valid code safe
  · intro boundaries
    by_cases accepted : ∃ instrs : List RawInstr, (∀ instr ∈ instrs, instr.Valid platform) ∧
        body.Code = listingBytes platform instrs
    · obtain ⟨instrs, valid, code⟩ := accepted
      exact ILRewriter.safe_of_boundaries valid code (boundaries instrs valid code)
    · exact ILRewriter.safe_of_refused accepted

/-- `br.s` over five bytes that are not there. -/
def strayBranch : MethodBody where
  Flags := 0
  MaxStack := 8
  LocalVarSigTok := 0
  Code := [0x2B, 0x05]
  EH := []
  maxStack_lt := smallStack_lt
  inImage := by decide
  clauses_le := noClauses_le

theorem strayBranch_unresolved : ¬ImportSafe Ecma335.platform strayBranch := by
  intro safe
  have valid : ∀ instr ∈ [RawInstr.plain CEE_BR_S 5], instr.Valid Ecma335.platform := by
    simp only [List.mem_singleton, forall_eq, RawInstr.Valid]
    decide
  have boundaries := ILRewriter.boundaries_of_safe valid (by decide) safe
  have target := boundaries.code [] _ [] rfl 7 (by decide)
  have inside := target.le
  exact absurd inside (by decide)

end ClrProfiling
