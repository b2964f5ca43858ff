import ClrProfiling.IL.Acceptance
import ClrProfiling.IL.Relaxation

/-! Export as a whole: the method body it hands over, when it succeeds, and how it fails. -/

namespace ClrProfiling

open LinkedRing Word

/-- A clause with the offsets of its nodes. -/
def exportedClause (starts : Ptr → Nat) (next : Ptr → Ptr) (clause : EHClause) : EHInfo where
  Flags := clause.m_Flags
  TryOffset := UInt32.ofNat (starts clause.m_pTryBegin)
  TryLength := UInt32.ofNat (sub32 (starts clause.m_pTryEnd) (starts clause.m_pTryBegin))
  HandlerOffset := UInt32.ofNat (starts clause.m_pHandlerBegin)
  HandlerLength := UInt32.ofNat (sub32 (starts (next clause.m_pHandlerEnd)) (starts clause.m_pHandlerBegin))
  ClassTokenOrFilterOffset :=
    if clause.m_Flags &&& COR_ILEXCEPTION_CLAUSE_FILTER = 0 then clause.m_ClassToken
    else UInt32.ofNat (starts clause.m_pFilter)

namespace ILRewriter

variable {platform : Platform}

theorem ExportClause_eq_ok_iff {s : ILRewriter} {clause : EHClause} :
    s.ExportClause clause = .ok ehInfo ↔ (∀ p ∈ clause.pointers, s.deref p = .ok p) ∧
      ehInfo = exportedClause s.m_offset s.m_pNext clause := by
  constructor
  · intro run
    obtain ⟨tryBegin, first, rest⟩ := Outcome.bind_eq_ok_iff.mp run
    obtain ⟨tryEnd, second, rest⟩ := Outcome.bind_eq_ok_iff.mp rest
    obtain ⟨handlerBegin, third, rest⟩ := Outcome.bind_eq_ok_iff.mp rest
    obtain ⟨handlerEnd, fourth, rest⟩ := Outcome.bind_eq_ok_iff.mp rest
    obtain rfl := deref_eq_ok first
    obtain rfl := deref_eq_ok second
    obtain rfl := deref_eq_ok third
    obtain rfl := deref_eq_ok fourth
    dsimp only at rest
    by_cases plain : clause.m_Flags &&& COR_ILEXCEPTION_CLAUSE_FILTER = 0
    · rw [if_pos plain, Outcome.pure_eq, Outcome.ok_bind] at rest
      cases rest
      refine ⟨?_, by simp [exportedClause, plain]⟩
      simp [EHClause.pointers, plain, first, second, third, fourth]
    · rw [if_neg plain] at rest
      obtain ⟨filter, found, rest⟩ := Outcome.bind_eq_ok_iff.mp rest
      obtain rfl := deref_eq_ok found
      cases rest
      refine ⟨?_, by simp [exportedClause, plain]⟩
      simp [EHClause.pointers, plain, first, second, third, fourth, found]
  · rintro ⟨pointers, rfl⟩
    simp only [EHClause.pointers, List.forall_mem_append, List.forall_mem_cons] at pointers
    obtain ⟨⟨first, second, third, fourth, -⟩, filter⟩ := pointers
    unfold ExportClause
    rw [first, second, third, fourth]
    by_cases plain : clause.m_Flags &&& COR_ILEXCEPTION_CLAUSE_FILTER = 0
    · simp [exportedClause, plain, Outcome.pure_eq]
    · rw [if_pos plain] at filter
      simp [exportedClause, plain, Outcome.pure_eq, filter]

theorem mapM_ExportClause {s : ILRewriter} {clauses : List EHClause} :
    clauses.mapM s.ExportClause = .ok infos ↔
      (∀ clause ∈ clauses, ∀ p ∈ clause.pointers, s.deref p = .ok p) ∧
        infos = clauses.map (exportedClause s.m_offset s.m_pNext) := by
  rw [Outcome.mapM_eq_ok_iff]
  simp only [ExportClause_eq_ok_iff]
  induction clauses generalizing infos with
  | nil => cases infos <;> simp
  | cons clause rest ih =>
    cases infos with
    | nil => simp
    | cons info infos =>
      rw [List.forall₂_cons, ih]
      simp only [List.forall_mem_cons, List.map_cons, List.cons.injEq]
      tauto

/-- The room for code: ten bytes a node, in 32 bits. -/
def outputRoom (nodes : List Instr) : Nat := 10 * nodes.length % 2 ^ 32

theorem outputBuffer_size {s : ILRewriter} (platform : Platform) (holds : s.Holds nodes) :
    (s.outputBuffer platform).size = outputRoom nodes := by
  rw [outputBuffer, holds.count, outputRoom]
  simp only [wrap32]
  omega

theorem outputRoom_lt (nodes : List Instr) : outputRoom nodes < 2 ^ 32 := Nat.mod_lt _ (by decide)

/-- What Export delivers for a list of nodes. -/
structure Assembled (platform : Platform) (nodes nodes' : List Instr) (s : ILRewriter) (result : Exported) : Prop where
  widening : List.Forall₂ (Widened platform) nodes nodes'
  laid : Laid platform nodes' s (outputRoom nodes) result.rewriter result.body.Code
  codeSize : result.body.CodeSize = totalSize platform nodes'
  flags : result.body.Flags =
    (s.m_flags ||| (if s.m_pEH.length ≠ 0 then CorILMethod_MoreSects else 0) ||| CorILMethod_FatFormat) % 2 ^ 12
  maxStack : result.body.MaxStack = s.m_maxStack % 2 ^ 16
  localVarSig : result.body.LocalVarSigTok = s.m_tkLocalVarSig
  pointers : ∀ clause ∈ s.m_pEH, ∀ p ∈ clause.pointers, s.deref p = .ok p
  clauses : result.body.EH = s.m_pEH.map (exportedClause result.rewriter.m_offset result.rewriter.m_pNext)

private theorem ExportBody_eq_ok {s s' : ILRewriter}
    (rewriter : s' = { s with m_opcode := s'.m_opcode, m_offset := s'.m_offset })
    (run : s'.ExportBody code = .ok fat) :
    fat.Code = code ∧ fat.CodeSize = code.length ∧
      fat.Flags =
        (s.m_flags ||| (if s.m_pEH.length ≠ 0 then CorILMethod_MoreSects else 0) ||| CorILMethod_FatFormat) % 2 ^ 12 ∧
      fat.MaxStack = s.m_maxStack % 2 ^ 16 ∧ fat.LocalVarSigTok = s.m_tkLocalVarSig ∧
      (∀ clause ∈ s.m_pEH, ∀ p ∈ clause.pointers, s.deref p = .ok p) ∧
      fat.EH = s.m_pEH.map (exportedClause s'.m_offset s'.m_pNext) := by
  obtain ⟨clauses, mapped, rest⟩ := Outcome.bind_eq_ok_iff.mp run
  obtain ⟨pointers, rfl⟩ := mapM_ExportClause.mp mapped
  cases rest
  have clauses : s'.m_pEH = s.m_pEH := by rw [rewriter]
  have flags : s'.m_flags = s.m_flags := by rw [rewriter]
  have maxStack : s'.m_maxStack = s.m_maxStack := by rw [rewriter]
  have localVarSig : s'.m_tkLocalVarSig = s.m_tkLocalVarSig := by rw [rewriter]
  have brk : s'.deref = s.deref := by rw [rewriter]; rfl
  rw [clauses, brk] at pointers
  refine ⟨rfl, rfl, ?_, ?_, localVarSig, pointers, ?_⟩
  · simp only [flags, clauses]
  · simp only [maxStack]
  · simp only [clauses]

theorem Export_eq_ok {s : ILRewriter} (holds : s.Holds nodes) (closed : Closed platform nodes)
    (run : s.Export platform = .ok result) : ∃ nodes', Assembled platform nodes nodes' s result := by
  obtain ⟨⟨rewriter, buffer, offset, passes⟩, loop, rest⟩ := Outcome.bind_eq_ok_iff.mp run
  obtain ⟨fat, body, rest⟩ := Outcome.bind_eq_ok_iff.mp rest
  cases rest
  have size := outputBuffer_size platform holds
  obtain ⟨nodes', widening, laid, total⟩ := Again_eq_ok holds closed (by rw [size]; exact outputRoom_lt nodes) loop
  rw [size] at laid
  obtain ⟨code, codeSize, flags, maxStack, localVarSig, pointers, clauses⟩ := ExportBody_eq_ok laid.rewriter body
  refine ⟨nodes', widening, ?_, ?_, flags, maxStack, localVarSig, pointers, clauses⟩
  · rw [← code] at laid
    exact laid
  · rw [codeSize, Buffer.length_read, total]

/-- A list that fits, with every short branch in reach, is exported in one pass and as it is. -/
theorem Export_once {s : ILRewriter} (holds : s.Holds nodes) (closed : Closed platform nodes)
    (pointers : ∀ clause ∈ s.m_pEH, ∀ p ∈ clause.pointers, s.deref p = .ok p)
    (fits : totalSize platform nodes ≤ outputRoom nodes)
    (near : EveryAt platform (fun place node => ¬FarShort platform (startOf platform nodes) place node) 0 nodes) :
    ∃ result, s.Export platform = .ok result ∧ Assembled platform nodes nodes s result ∧ result.passes = 1 := by
  have size := outputBuffer_size platform holds
  have positive : 0 < s.brk := Nat.zero_lt_of_lt holds.hub_lt
  obtain ⟨fuel, brk⟩ : ∃ fuel, s.brk = fuel + 1 := ⟨s.brk - 1, (Nat.succ_pred_eq_of_pos positive).symm⟩
  obtain ⟨s', buffer, loop, laid⟩ := Again_once holds closed (by rw [size]; exact outputRoom_lt nodes)
    (by rw [size]; exact fits) near fuel 0
  rw [size] at laid
  have derefs : s'.deref = s.deref := by rw [laid.rewriter]; rfl
  have clauses : s'.m_pEH = s.m_pEH := by rw [laid.rewriter]
  obtain ⟨fat, body⟩ : ∃ fat, s'.ExportBody (buffer.read 0 (totalSize platform nodes)) = .ok fat := by
    rw [ExportBody, clauses, mapM_ExportClause.mpr ⟨by rw [derefs]; exact pointers, rfl⟩]
    exact ⟨_, rfl⟩
  obtain ⟨code, codeSize, flags, maxStack, localVarSig, pointers, infos⟩ := ExportBody_eq_ok laid.rewriter body
  refine ⟨⟨s', fat, 1⟩, ?_, ⟨forall₂_widened_refl nodes, ?_, ?_, flags, maxStack, localVarSig, pointers, infos⟩, rfl⟩
  · rw [Export, brk, loop, Outcome.ok_bind]
    simp only [body, Outcome.ok_bind]
    rfl
  · rw [← code] at laid
    exact laid
  · rw [codeSize, Buffer.length_read]

/-- Export succeeds where ten bytes a node are a 32-bit number and every reference is allocated. -/
theorem Export_succeeds {s : ILRewriter} (holds : s.Holds nodes) (closed : Closed platform nodes)
    (pointers : ∀ clause ∈ s.m_pEH, ∀ p ∈ clause.pointers, s.deref p = .ok p) (small : 10 * nodes.length < 2 ^ 32) :
    ∃ result, s.Export platform = .ok result := by
  have size := outputBuffer_size platform holds
  rw [outputRoom, Nat.mod_eq_of_lt small] at size
  have short : shortCount platform nodes ≤ nodes.length := List.countP_le_length
  have room := holds.length_lt
  obtain ⟨⟨s', buffer, offset, passes⟩, loop⟩ :
      ∃ result, Again platform s.brk s (s.outputBuffer platform) 0 = .ok result :=
    Again_succeeds holds closed (by rw [size]; exact small) (Nat.le_of_eq size.symm) (by omega)
  obtain ⟨nodes', -, laid, -⟩ := Again_eq_ok holds closed (by rw [size]; exact small) loop
  have derefs : s'.deref = s.deref := by rw [laid.rewriter]; rfl
  have clauses : s'.m_pEH = s.m_pEH := by rw [laid.rewriter]
  rw [Export, loop, Outcome.ok_bind]
  simp only [ExportBody, clauses, mapM_ExportClause.mpr ⟨by rw [derefs]; exact pointers, rfl⟩, Outcome.ok_bind,
    Outcome.pure_eq]
  exact ⟨_, rfl⟩

theorem Export_targets {s : ILRewriter} (holds : s.Holds nodes) (run : s.Export platform = .ok result) :
    ∀ node ∈ nodes, node.isBranch platform → s.deref node.operand = .ok node.operand := by
  obtain ⟨_, loop, -⟩ := Outcome.bind_eq_ok_iff.mp run
  exact Again_targets holds (by rw [outputBuffer_size platform holds]; exact outputRoom_lt nodes) loop

/-- With every reference allocated Export never looks behind a null pointer. -/
theorem Export_refuses {s : ILRewriter} {failure : Failure} (holds : s.Holds nodes) (closed : Closed platform nodes)
    (pointers : ∀ clause ∈ s.m_pEH, ∀ p ∈ clause.pointers, s.deref p = .ok p)
    (run : s.Export platform = .error failure) : failure ≠ .invalidPointer := by
  have narrow : (s.outputBuffer platform).size < 2 ^ 32 := by
    rw [outputBuffer_size platform holds]
    exact outputRoom_lt nodes
  rcases Outcome.bind_eq_error_iff.mp run with failed | ⟨⟨s', buffer, offset, passes⟩, loop, rest⟩
  · rcases Again_refuses holds closed narrow failed with rfl | rfl <;> decide
  · obtain ⟨nodes', -, laid, -⟩ := Again_eq_ok holds closed narrow loop
    have derefs : s'.deref = s.deref := by rw [laid.rewriter]; rfl
    have clauses : s'.m_pEH = s.m_pEH := by rw [laid.rewriter]
    simp only [ExportBody, clauses, mapM_ExportClause.mpr ⟨by rw [derefs]; exact pointers, rfl⟩, Outcome.ok_bind,
      Outcome.pure_eq] at rest
    cases rest

end ILRewriter

end ClrProfiling
