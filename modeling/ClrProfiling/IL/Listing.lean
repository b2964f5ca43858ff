import ClrProfiling.Foundation.Outcome
import ClrProfiling.IL.Rewriter

/-! The instruction list behind the pointers: a rewriter holds a list of nodes, and the
operations of the rewriter are operations on that list. -/

namespace ClrProfiling

open LinkedRing Word

/-- A node with its address. -/
structure Instr where
  ptr : Ptr
  opcode : Nat
  operand : Nat
deriving DecidableEq, Repr

/-- Whether a node holds a target. -/
def Instr.isBranch (platform : Platform) (node : Instr) : Prop :=
  platform.s_OpCodeFlags node.opcode &&& OPCODEFLAGS_BranchTarget ≠ 0

instance (platform : Platform) (node : Instr) : Decidable (node.isBranch platform) :=
    inferInstanceAs (Decidable (_ ≠ _))

theorem Instr.isBranch.of_switchArg {node : Instr} (internal : node.opcode = platform.CEE_SWITCH_ARG) :
    node.isBranch platform := by
  rw [isBranch, internal, platform.flags_switchArg]
  decide

theorem Instr.not_isBranch_of_switch {node : Instr} (opcode : node.opcode = CEE_SWITCH) : ¬node.isBranch platform := by
  rw [isBranch, opcode, platform.flags_CEE_SWITCH]
  decide

namespace ILRewriter

/-- The nodes met by following `m_pNext` from the sentinel, with what they hold. -/
def listing (s : ILRewriter) : List Instr := s.instrs.map fun p => ⟨p, s.m_opcode p, s.m_operand p⟩

/-- The ring of a rewriter is `nodes`. -/
structure Holds (s : ILRewriter) (nodes : List Instr) : Prop where
  ring : s.links.IsRing m_IL (nodes.map Instr.ptr)
  opcode : ∀ node ∈ nodes, s.m_opcode node.ptr = node.opcode
  operand : ∀ node ∈ nodes, s.m_operand node.ptr = node.operand
  allocated : ∀ node ∈ nodes, m_IL < node.ptr ∧ node.ptr < s.brk
  hub_lt : m_IL < s.brk
  count : s.m_nInstrs = wrap32 nodes.length

/-- What inserting new nodes with the given opcodes does besides linking them in. -/
structure Grown (platform : Platform) (s s' : ILRewriter) (opcodes : List Nat) : Prop where
  brk : s'.brk = s.brk + opcodes.length
  maxStack : s'.m_maxStack ≡ s.m_maxStack + (opcodes.map platform.k_rgnStackPushes).sum [MOD 2 ^ 32]
  clauses : s'.m_pEH = s.m_pEH
  flags : s'.m_flags = s.m_flags
  localVarSig : s'.m_tkLocalVarSig = s.m_tkLocalVarSig
  codeSize : s'.m_CodeSize = s.m_CodeSize

theorem Grown.refl (platform : Platform) (s : ILRewriter) : Grown platform s s [] :=
  ⟨rfl, rfl, rfl, rfl, rfl, rfl⟩

theorem Grown.trans (first : Grown platform s s' opcodes) (second : Grown platform s' s'' opcodes') :
    Grown platform s s'' (opcodes ++ opcodes') where
  brk := by rw [second.brk, first.brk, List.length_append, Nat.add_assoc]
  maxStack := by
    rw [List.map_append, List.sum_append, ← Nat.add_assoc]
    exact second.maxStack.trans (first.maxStack.add_right _)
  clauses := second.clauses.trans first.clauses
  flags := second.flags.trans first.flags
  localVarSig := second.localVarSig.trans first.localVarSig
  codeSize := second.codeSize.trans first.codeSize

section Holds

variable {s : ILRewriter}

theorem Holds.ptr_ne_hub (holds : s.Holds nodes) (member : node ∈ nodes) : node.ptr ≠ m_IL :=
  Nat.ne_of_gt (holds.allocated node member).1

theorem Holds.ptr_ne_brk (holds : s.Holds nodes) (member : node ∈ nodes) : node.ptr ≠ s.brk :=
  Nat.ne_of_lt (holds.allocated node member).2

theorem Holds.ptrs_nodup (holds : s.Holds nodes) : (nodes.map Instr.ptr).Nodup := holds.ring.items_nodup

/-- A ring holds fewer nodes than `new` has returned. -/
theorem length_lt_of_ring {items : List Ptr} (ring : s.links.IsRing m_IL items) (hub : m_IL < s.brk)
    (allocated : ∀ p ∈ items, m_IL < p ∧ p < s.brk) : items.length + m_IL < s.brk := by
  have below : (m_IL :: items) ⊆ List.range' m_IL (s.brk - m_IL) := by
    intro p member
    have inside : m_IL ≤ p ∧ p < s.brk := by
      rcases List.mem_cons.mp member with rfl | listed
      · exact ⟨Nat.le_refl _, hub⟩
      · exact ⟨Nat.le_of_lt (allocated p listed).1, (allocated p listed).2⟩
    refine List.mem_range'_1.mpr ⟨inside.1, ?_⟩
    rw [Nat.add_sub_cancel' (Nat.le_of_lt hub)]
    exact inside.2
  have count := (List.subperm_of_subset ring.nodup below).length_le
  rw [List.length_cons, List.length_range'] at count
  exact Nat.lt_sub_iff_add_lt.mp count

theorem Holds.length_lt (holds : s.Holds nodes) : nodes.length + m_IL < s.brk := by
  have short := length_lt_of_ring holds.ring holds.hub_lt fun p member => by
    obtain ⟨node, listed, rfl⟩ := List.mem_map.mp member
    exact holds.allocated node listed
  rwa [List.length_map] at short

theorem Holds.deref (holds : s.Holds nodes) (member : node ∈ nodes) :
    s.deref node.ptr = .ok node.ptr := by
  obtain ⟨low, high⟩ := holds.allocated node member
  rw [ILRewriter.deref, if_pos ⟨Nat.lt_trans (by decide) low, high⟩]

theorem Holds.deref_hub (holds : s.Holds nodes) : s.deref m_IL = .ok m_IL := by
  rw [ILRewriter.deref, if_pos ⟨by decide, holds.hub_lt⟩]

theorem Holds.forInstrs_eq_foldlM {Loop : Type} (rewriter : Loop → ILRewriter) (loop : Loop)
    (holds : (rewriter loop).Holds nodes) {step : Loop → Ptr → Except Failure Loop}
    (keeps : ∀ loop p loop', step loop p = .ok loop' → (rewriter loop').links = (rewriter loop).links) :
    forInstrs rewriter step loop = (nodes.map Instr.ptr).foldlM step loop := by
  have enough : (nodes.map Instr.ptr).length ≤ (rewriter loop).brk := by
    have short := holds.length_lt
    rw [List.length_map]
    omega
  exact Links.IsRing.forEach_eq_foldlM (fun loop => (rewriter loop).links) holds.ring keeps enough

private theorem instrsFrom_eq {items : List Ptr} {fuel : Nat}
    (chain : (items ++ [m_IL]).IsChain (fun left right => s.links.next left = right))
    (fresh : m_IL ∉ items) (enough : items.length < fuel) : s.instrsFrom fuel (rightOf m_IL items) = items := by
  induction items generalizing fuel with
  | nil => cases fuel <;> simp [instrsFrom]
  | cons p rest ih =>
    obtain ⟨apart, fresh⟩ : p ≠ m_IL ∧ m_IL ∉ rest := by
      simpa [eq_comm (a := m_IL), not_or] using fresh
    cases fuel with
    | zero => simp at enough
    | succ fuel =>
      have onward : s.m_pNext p = rightOf m_IL rest := by
        cases rest with
        | nil => exact (List.isChain_cons_cons.mp chain).1
        | cons next rest => exact (List.isChain_cons_cons.mp chain).1
      rw [rightOf_cons, instrsFrom, if_neg apart, onward, ih chain.tail fresh (by simpa using enough)]

theorem instrs_of_ring {items : List Ptr} (ring : s.links.IsRing m_IL items) (enough : items.length < s.brk) :
    s.instrs = items := by
  have start : s.m_pNext m_IL = rightOf m_IL items := ring.next_hub
  rw [instrs, start]
  exact instrsFrom_eq ring.chain ring.hub_notMem enough

theorem Holds.instrs_eq (holds : s.Holds nodes) : s.instrs = nodes.map Instr.ptr := by
  apply instrs_of_ring holds.ring
  rw [List.length_map]
  exact Nat.lt_of_le_of_lt (Nat.le_add_right ..) holds.length_lt

theorem Holds.listing_eq (holds : s.Holds nodes) : s.listing = nodes := by
  rw [listing, holds.instrs_eq, List.map_map]
  conv_rhs => rw [← List.map_id nodes]
  refine List.map_congr_left fun node member => ?_
  simp [holds.opcode node member, holds.operand node member]

theorem Holds.unique (first : s.Holds nodes) (second : s.Holds others) : nodes = others := by
  rw [← first.listing_eq, second.listing_eq]

end Holds

section Update

variable {s : ILRewriter}

/-- Writing the opcode and the operand of one node. -/
private theorem Holds.write {s' : ILRewriter} {opcode operand : Nat} (holds : s.Holds (before ++ node :: after))
    (opcodes : s'.m_opcode = Function.update s.m_opcode node.ptr opcode)
    (operands : s'.m_operand = Function.update s.m_operand node.ptr operand)
    (links : s'.links = s.links) (brk : s'.brk = s.brk) (count : s'.m_nInstrs = s.m_nInstrs) :
    s'.Holds (before ++ ⟨node.ptr, opcode, operand⟩ :: after) := by
  have others : ∀ other ∈ before ++ ⟨node.ptr, opcode, operand⟩ :: after,
      other = ⟨node.ptr, opcode, operand⟩ ∨ other ∈ before ++ node :: after ∧ other.ptr ≠ node.ptr := by
    intro other member
    have nodup := holds.ptrs_nodup
    rw [List.map_append, List.map_cons, List.nodup_middle, List.nodup_cons, ← List.map_append] at nodup
    by_cases same : other ∈ before ++ after
    · refine .inr ⟨?_, fun equal => nodup.1 (equal ▸ List.mem_map_of_mem same)⟩
      simp only [List.mem_append, List.mem_cons] at same ⊢
      tauto
    · simp only [List.mem_append, List.mem_cons] at same member
      tauto
  refine ⟨?_, ?_, ?_, ?_, ?_, ?_⟩
  · rw [links]
    simpa using holds.ring
  · intro other member
    rw [opcodes]
    rcases others other member with rfl | ⟨listed, apart⟩
    · exact Function.update_self ..
    · rw [Function.update_of_ne apart, holds.opcode other listed]
  · intro other member
    rw [operands]
    rcases others other member with rfl | ⟨listed, apart⟩
    · exact Function.update_self ..
    · rw [Function.update_of_ne apart, holds.operand other listed]
  · intro other member
    rw [brk]
    rcases others other member with rfl | ⟨listed, -⟩
    · exact holds.allocated node (by simp)
    · exact holds.allocated other listed
  · rw [brk]
    exact holds.hub_lt
  · simpa [count] using holds.count

theorem Holds.setOperand (holds : s.Holds (before ++ node :: after)) (bits : Nat) :
    (s.setOperand node.ptr bits).Holds (before ++ { node with operand := bits } :: after) := by
  have kept : s.m_opcode = Function.update s.m_opcode node.ptr node.opcode := by
    rw [← holds.opcode node (by simp), Function.update_eq_self]
  exact holds.write kept rfl rfl rfl rfl

theorem Holds.setOpcode (holds : s.Holds (before ++ node :: after)) (opcode : Nat) :
    (s.setOpcode node.ptr opcode).Holds (before ++ { node with opcode } :: after) := by
  have kept : s.m_operand = Function.update s.m_operand node.ptr node.operand := by
    rw [← holds.operand node (by simp), Function.update_eq_self]
  exact holds.write rfl kept rfl rfl rfl

theorem Holds.next_eq (holds : s.Holds (before ++ node :: after)) :
    s.m_pNext node.ptr = rightOf m_IL (after.map Instr.ptr) := by
  have ring := holds.ring
  rw [List.map_append, List.map_cons] at ring
  exact ring.next_eq

theorem Holds.past (holds : s.Holds (before ++ node :: after)) : s.Holds ((before ++ [node]) ++ after) := by
  rwa [← List.append_cons]

/-- The fields of a new node, which is not linked in yet. -/
def freshNode (s : ILRewriter) (opcode operand : Nat) : ILRewriter :=
  { s with
    brk := s.brk + 1
    m_nInstrs := wrap32 (s.m_nInstrs + 1)
    m_opcode := Function.update s.m_opcode s.brk opcode
    m_offset := Function.update s.m_offset s.brk 0
    m_operand := Function.update s.m_operand s.brk operand }

theorem freshNode_eq (s : ILRewriter) (opcode operand : Nat) :
    (s.NewILInstr.2.setOpcode s.brk opcode).setOperand s.brk operand = s.freshNode opcode operand := by
  simp [NewILInstr, ILRewriter.setOpcode, ILRewriter.setOperand, freshNode, Function.update_idem]

theorem freshNode_zero_eq (s : ILRewriter) (opcode : Nat) :
    s.NewILInstr.2.setOpcode s.brk opcode = s.freshNode opcode 0 := by
  simp [NewILInstr, ILRewriter.setOpcode, freshNode, Function.update_idem]

theorem Holds.fresh (holds : s.Holds nodes) : s.brk ∉ m_IL :: nodes.map Instr.ptr := by
  intro member
  rcases List.mem_cons.mp member with hub | listed
  · exact absurd holds.hub_lt (by rw [hub]; exact Nat.lt_irrefl _)
  · obtain ⟨node, listed, same⟩ := List.mem_map.mp listed
    exact holds.ptr_ne_brk listed same

private theorem Holds.link (holds : s.Holds (before ++ after)) {links : Links Ptr} {m_maxStack opcode operand : Nat}
    (ring : links.IsRing m_IL (before.map Instr.ptr ++ s.brk :: after.map Instr.ptr)) :
    ILRewriter.Holds { s.freshNode opcode operand with links, m_maxStack }
      (before ++ ⟨s.brk, opcode, operand⟩ :: after) := by
  have others : ∀ other ∈ before ++ ⟨s.brk, opcode, operand⟩ :: after,
      other = ⟨s.brk, opcode, operand⟩ ∨ other ∈ before ++ after := by
    intro other member
    simp only [List.mem_append, List.mem_cons] at member ⊢
    tauto
  refine ⟨?_, ?_, ?_, ?_, ?_, ?_⟩
  · simpa using ring
  · intro other member
    rcases others other member with rfl | listed
    · exact Function.update_self ..
    · exact (Function.update_of_ne (holds.ptr_ne_brk listed) _ _).trans (holds.opcode other listed)
  · intro other member
    rcases others other member with rfl | listed
    · exact Function.update_self ..
    · exact (Function.update_of_ne (holds.ptr_ne_brk listed) _ _).trans (holds.operand other listed)
  · intro other member
    rcases others other member with rfl | listed
    · exact ⟨holds.hub_lt, Nat.lt_succ_self _⟩
    · obtain ⟨low, high⟩ := holds.allocated other listed
      exact ⟨low, Nat.lt_succ_of_lt high⟩
  · exact Nat.lt_succ_of_lt holds.hub_lt
  · change wrap32 (s.m_nInstrs + 1) = _
    rw [holds.count, wrap32_add_left]
    congr 1
    simp only [List.length_append, List.length_cons]
    omega

theorem Holds.insertBefore (platform : Platform) (holds : s.Holds (before ++ after)) (opcode operand : Nat) :
    ((s.freshNode opcode operand).InsertBefore platform (rightOf m_IL (after.map Instr.ptr)) s.brk).Holds
      (before ++ ⟨s.brk, opcode, operand⟩ :: after) := by
  have ring := holds.ring
  have fresh := holds.fresh
  rw [List.map_append] at ring fresh
  exact holds.link (ring.insertBefore fresh)

theorem Holds.insertAfter (platform : Platform) (holds : s.Holds (before ++ after)) (opcode operand : Nat) :
    ((s.freshNode opcode operand).InsertAfter platform (leftOf m_IL (before.map Instr.ptr)) s.brk).Holds
      (before ++ ⟨s.brk, opcode, operand⟩ :: after) := by
  have ring := holds.ring
  have fresh := holds.fresh
  rw [List.map_append] at ring fresh
  exact holds.link (ring.insertAfter fresh)

private theorem pushes_freshNode (platform : Platform) (s : ILRewriter) (opcode operand : Nat) :
    wrap32 (s.m_maxStack + platform.k_rgnStackPushes ((s.freshNode opcode operand).m_opcode s.brk)) ≡
      s.m_maxStack + ([opcode].map platform.k_rgnStackPushes).sum [MOD 2 ^ 32] := by
  simp only [freshNode, Function.update_self, List.map_cons, List.map_nil, List.sum_cons, List.sum_nil, Nat.add_zero]
  exact Nat.mod_modEq _ _

theorem grown_insertBefore (platform : Platform) (s : ILRewriter) (opcode operand : Nat) (pWhere : Ptr) :
    Grown platform s ((s.freshNode opcode operand).InsertBefore platform pWhere s.brk) [opcode] :=
  ⟨rfl, pushes_freshNode platform s opcode operand, rfl, rfl, rfl, rfl⟩

theorem grown_insertAfter (platform : Platform) (s : ILRewriter) (opcode operand : Nat) (pWhere : Ptr) :
    Grown platform s ((s.freshNode opcode operand).InsertAfter platform pWhere s.brk) [opcode] :=
  ⟨rfl, pushes_freshNode platform s opcode operand, rfl, rfl, rfl, rfl⟩

end Update

end ILRewriter

end ClrProfiling
