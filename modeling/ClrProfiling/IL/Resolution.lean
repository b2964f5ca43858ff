import ClrProfiling.IL.Loading

/-! `ImportIL` as a whole: which code it accepts, the nodes it leaves behind, and what
its branch targets are resolved to. -/

namespace ClrProfiling

open LinkedRing Word

section Nodes

variable (platform : Platform)

/-- The node that starts at a position of the code, the sentinel for the code end, and
the null pointer anywhere else. -/
def startNode (instrs : List RawInstr) (position : Nat) : Ptr :=
  (headAt platform (m_IL + 1) 0 instrs position).getD
    (if position = (listingBytes platform instrs).length then m_IL else nullptr)

/-- A node with its target looked up. -/
def resolved (find : Nat → Ptr) (node : Instr) : Instr :=
  if node.isBranch platform then { node with operand := find (node.operand % 2 ^ 32) } else node

/-- The nodes of a method body. -/
def importedNodes (instrs : List RawInstr) : List Instr :=
  (loadedNodes platform (m_IL + 1) 0 instrs).map (resolved platform (startNode platform instrs))

end Nodes

@[simp] theorem resolved_ptr (platform : Platform) (find : Nat → Ptr) (node : Instr) :
    (resolved platform find node).ptr = node.ptr := by
  unfold resolved
  split <;> rfl

@[simp] theorem resolved_opcode (platform : Platform) (find : Nat → Ptr) (node : Instr) :
    (resolved platform find node).opcode = node.opcode := by
  unfold resolved
  split <;> rfl

namespace ILRewriter

section Resolve

variable (platform : Platform)

private theorem ResolveInstr_links (s : ILRewriter) (pInstr : Ptr) (s' : ILRewriter)
    (run : s.ResolveInstr platform pInstr = .ok s') : s'.links = s.links := by
  unfold ResolveInstr at run
  split at run <;> cases run <;> rfl

private theorem ResolveInstr_eq {s : ILRewriter} (holds : s.Holds (before ++ node :: after)) :
    ∃ s', s.ResolveInstr platform node.ptr = .ok s' ∧
      s'.Holds (before ++ resolved platform s.GetInstrFromOffset node :: after) ∧ Grown platform s s' [] ∧
      s'.GetInstrFromOffset = s.GetInstrFromOffset := by
  have opcode := holds.opcode node (by simp)
  have operand := holds.operand node (by simp)
  unfold ResolveInstr
  rw [opcode, m_Arg32, operand]
  by_cases branch : node.isBranch platform
  · rw [if_pos (show platform.s_OpCodeFlags node.opcode &&& OPCODEFLAGS_BranchTarget ≠ 0 from branch), resolved,
      if_pos branch]
    exact ⟨_, rfl, holds.setOperand _, ⟨rfl, rfl, rfl, rfl, rfl, rfl⟩, rfl⟩
  · rw [if_neg (show ¬platform.s_OpCodeFlags node.opcode &&& OPCODEFLAGS_BranchTarget ≠ 0 from branch), resolved,
      if_neg branch]
    exact ⟨s, rfl, holds, .refl platform s, rfl⟩

private theorem resolve_all {s : ILRewriter} (rest : List Instr) (holds : s.Holds (done ++ rest)) :
    ∃ s', (rest.map Instr.ptr).foldlM (ResolveInstr platform) s = .ok s' ∧
      s'.Holds (done ++ rest.map (resolved platform s.GetInstrFromOffset)) ∧ Grown platform s s' [] ∧
      s'.GetInstrFromOffset = s.GetInstrFromOffset := by
  induction rest generalizing s done with
  | nil => exact ⟨s, rfl, by simpa using holds, .refl platform s, rfl⟩
  | cons node rest ih =>
    obtain ⟨middle, turn, held, grown, table⟩ := ResolveInstr_eq platform holds
    obtain ⟨s', run, done', grown', table'⟩ := ih held.past
    refine ⟨s', ?_, ?_, grown.trans grown', table'.trans table⟩
    · rw [List.map_cons, List.foldlM_cons, turn, Outcome.ok_bind, run]
    · rw [table] at done'
      simpa using done'

end Resolve

end ILRewriter

private theorem rawNodes_noTargets {platform : Platform} {instr : RawInstr} (none : instr.hasTargets platform = false) :
    ∀ node ∈ rawNodes platform brk offset instr, ¬node.isBranch platform := by
  intro node member
  cases instr with
  | plain opcode operand =>
    obtain rfl := List.mem_singleton.mp member
    exact bne_iff_ne.not.mp (by simpa [RawInstr.hasTargets] using none)
  | switch targets => simp [RawInstr.hasTargets] at none

private theorem loadedNodes_noTargets {platform : Platform} {instrs : List RawInstr}
    (none : instrs.any (RawInstr.hasTargets platform) = false) :
    ∀ node ∈ loadedNodes platform brk offset instrs, ¬node.isBranch platform := by
  induction instrs generalizing brk offset with
  | nil => simp [loadedNodes]
  | cons instr rest ih =>
    obtain ⟨first, others⟩ := Bool.or_eq_false_iff.mp none
    intro node member
    rcases List.mem_append.mp member with here | later
    · exact rawNodes_noTargets first node here
    · exact ih others node later

namespace ILRewriter

variable {platform : Platform}

/-- What ImportIL leaves behind on a sequence of instructions. -/
structure Imported (platform : Platform) (s s' : ILRewriter) (instrs : List RawInstr) : Prop where
  holds : s'.Holds (importedNodes platform instrs)
  grown : Grown platform s s' ((importedNodes platform instrs).map Instr.opcode)
  table : s'.GetInstrFromOffset = startNode platform instrs

theorem ImportStart_holds {s : ILRewriter} (empty : s.Holds []) : s.ImportStart.Holds [] :=
  ⟨empty.ring, by simp, by simp, by simp, empty.hub_lt, empty.count⟩

private theorem loadAll_lookup {s : ILRewriter} {instrs : List RawInstr} (first : s.brk = m_IL + 1)
    (size : s.m_CodeSize = (listingBytes platform instrs).length) :
    (s.ImportStart.loadAll platform 0 instrs).GetInstrFromOffset = startNode platform instrs := by
  funext position
  have codeSize : (s.ImportStart.loadAll platform 0 instrs).m_CodeSize = s.m_CodeSize :=
    (grown_loadAll platform s.ImportStart 0 instrs).codeSize
  have fallback : s.ImportStart.m_pOffsetToInstr position =
      if position = s.m_CodeSize then m_IL else nullptr := by
    simp [ImportStart, Function.update_apply]
  have brk : s.ImportStart.brk = m_IL + 1 := first
  rw [GetInstrFromOffset, codeSize, loadAll_table, fallback, brk, startNode, size]
  by_cases within : position ≤ (listingBytes platform instrs).length
  · rw [if_pos within]
  · rw [if_neg within]
    cases found : headAt platform (m_IL + 1) 0 instrs position with
    | none => rw [Option.getD_none, if_neg (by omega)]
    | some p =>
      have inside := (headAt_bounds found).2
      omega

/-- ImportIL accepts every sequence of complete encodings. -/
theorem ImportIL_of_listing {s : ILRewriter} {instrs : List RawInstr} (empty : s.Holds []) (first : s.brk = m_IL + 1)
    (valid : ∀ instr ∈ instrs, instr.Valid platform) (size : s.m_CodeSize = (listingBytes platform instrs).length)
    (small : (listingBytes platform instrs).length < 2 ^ 32) :
    ∃ s', s.ImportIL platform (listingBytes platform instrs) = .ok s' ∧ Imported platform s s' instrs := by
  have loop : s.ImportStart.ImportLoop platform (listingBytes platform instrs) s.m_CodeSize false 0 =
      .ok (s.ImportStart.loadAll platform 0 instrs, false || instrs.any (RawInstr.hasTargets platform)) :=
    (ImportLoop_eq_ok_iff (by exact size) small (Nat.zero_le _) (by omega)).mpr ⟨instrs, valid, rfl, rfl⟩
  have held := (ImportStart_holds empty).loadAll platform 0 instrs
  have grown := grown_loadAll platform s.ImportStart 0 instrs
  have brk : s.ImportStart.brk = m_IL + 1 := first
  have opcodes : (importedNodes platform instrs).map Instr.opcode =
      (loadedNodes platform (m_IL + 1) 0 instrs).map Instr.opcode := by
    simp [importedNodes, Function.comp_def]
  have start : Grown platform s s.ImportStart [] := ⟨rfl, rfl, rfl, rfl, rfl, rfl⟩
  have lookup := loadAll_lookup first size
  rw [List.nil_append, brk] at held
  rw [brk, ← opcodes] at grown
  rw [ImportIL, loop, Outcome.ok_bind, Bool.false_or]
  cases targets : instrs.any (RawInstr.hasTargets platform) with
  | false =>
    refine ⟨_, rfl, ?_, start.trans grown, lookup⟩
    have same : importedNodes platform instrs = loadedNodes platform (m_IL + 1) 0 instrs := by
      rw [importedNodes]
      conv_rhs => rw [← List.map_id (loadedNodes platform (m_IL + 1) 0 instrs)]
      exact List.map_congr_left fun node member => if_neg (loadedNodes_noTargets targets node member)
    rw [same]
    exact held
  | true =>
    obtain ⟨s', run, held', grown', table'⟩ := resolve_all platform _ (show Holds _ ([] ++ _) from held)
    refine ⟨s', ?_, ?_, ?_, table'.trans lookup⟩
    · have loop := Holds.forInstrs_eq_foldlM id _ held (ResolveInstr_links platform)
      exact loop.trans run
    · rw [lookup] at held'
      exact held'
    · simpa using (start.trans grown).trans grown'

/-- ImportIL accepts nothing but sequences of complete encodings. -/
theorem ImportIL_listing {s : ILRewriter} {pIL : List UInt8} (size : s.m_CodeSize = pIL.length)
    (small : pIL.length < 2 ^ 32) (run : s.ImportIL platform pIL = .ok s') :
    ∃ instrs : List RawInstr, (∀ instr ∈ instrs, instr.Valid platform) ∧ pIL = listingBytes platform instrs := by
  rw [ImportIL] at run
  obtain ⟨loaded, loop, -⟩ := Outcome.bind_eq_ok_iff.mp run
  obtain ⟨instrs, valid, bytes, -⟩ := (ImportLoop_eq_ok_iff (s := s.ImportStart)
    (by exact size) small (Nat.zero_le _) (by omega)).mp loop
  exact ⟨instrs, valid, bytes⟩

end ILRewriter

end ClrProfiling
