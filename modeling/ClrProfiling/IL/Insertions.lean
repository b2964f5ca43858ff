import ClrProfiling.Foundation.Transition
import ClrProfiling.IL.Acceptance
import ClrProfiling.IL.Ecma335

/-! The instruction list as a list: what any sequence of insertions makes of the links. -/

namespace ClrProfiling

open LinkedRing Word Transition

/-- What is done to a rewriter from outside: new nodes, their fields, and where they are put. -/
inductive Operation where
  | NewILInstr
  | setOpcode (pInstr : Ptr) (opcode : Nat)
  | setOffset (pInstr : Ptr) (offset : Nat)
  | setOperand (pInstr : Ptr) (bits : Nat)
  | InsertBefore (pWhere pWhat : Ptr)
  | InsertAfter (pWhere pWhat : Ptr)
deriving DecidableEq, Repr

namespace Operation

def perform (platform : Platform) (s : ILRewriter) : Operation → ILRewriter
  | NewILInstr => s.NewILInstr.2
  | setOpcode pInstr opcode => s.setOpcode pInstr opcode
  | setOffset pInstr offset => s.setOffset pInstr offset
  | setOperand pInstr bits => s.setOperand pInstr bits
  | InsertBefore pWhere pWhat => s.InsertBefore platform pWhere pWhat
  | InsertAfter pWhere pWhat => s.InsertAfter platform pWhere pWhat

/-- A node that `new` has returned, and that is not in the list. -/
def Fresh (s : ILRewriter) (pWhat : Ptr) : Prop := m_IL < pWhat ∧ pWhat < s.brk ∧ pWhat ∉ s.instrs

/-- A node is inserted next to the sentinel or to a node of the list. -/
def Allowed (s : ILRewriter) : Operation → Prop
  | InsertBefore pWhere pWhat => s.Refers pWhere ∧ Fresh s pWhat
  | InsertAfter pWhere pWhat => s.Refers pWhere ∧ Fresh s pWhat
  | _ => True

/-- What an operation is to the list: the sentinel stands behind the last node, and in front of
the first one. -/
def onList (items : List Ptr) : Operation → List Ptr
  | InsertBefore pWhere pWhat => items.insertIdx (items.idxOf pWhere) pWhat
  | InsertAfter pWhere pWhat => items.insertIdx ((m_IL :: items).idxOf pWhere) pWhat
  | _ => items

/-- The node an operation inserts. -/
def inserts : Operation → Option Ptr
  | InsertBefore _ pWhat => some pWhat
  | InsertAfter _ pWhat => some pWhat
  | _ => none

def Step (platform : Platform) (s : ILRewriter) (operation : Operation) (s' : ILRewriter) : Prop :=
  operation.Allowed s ∧ s' = operation.perform platform s

end Operation

/-- The list that a sequence of operations makes. -/
def abstractList (operations : List Operation) : List Ptr := operations.foldl Operation.onList []

section Refinement

open Operation

variable {platform : Platform} {s : ILRewriter} {operations : List Operation}

/-- The ring of a rewriter is the list that its operations make, of nodes that `new` has returned. -/
structure Refines (operations : List Operation) (s : ILRewriter) : Prop where
  ring : s.links.IsRing m_IL (abstractList operations)
  hub_lt : m_IL < s.brk
  allocated : ∀ p ∈ abstractList operations, m_IL < p ∧ p < s.brk
  members : ∀ p, p ∈ abstractList operations ↔ p ∈ operations.filterMap inserts

theorem abstractList_snoc (operations : List Operation) (operation : Operation) :
    abstractList (operations ++ [operation]) = operation.onList (abstractList operations) := by
  rw [abstractList, List.foldl_append]
  rfl

theorem Refines.instrs_eq (refines : Refines operations s) : s.instrs = abstractList operations := by
  have short := ILRewriter.length_lt_of_ring refines.ring refines.hub_lt refines.allocated
  exact ILRewriter.instrs_of_ring refines.ring (Nat.lt_of_le_of_lt (Nat.le_add_right ..) short)

theorem Refines.spot (refines : Refines operations s) (refers : s.Refers p) : p ∈ m_IL :: abstractList operations := by
  rw [← refines.instrs_eq]
  exact List.mem_cons.mpr refers

theorem Refines.fresh (refines : Refines operations s) (fresh : Fresh s p) : p ∉ m_IL :: abstractList operations := by
  intro member
  rcases List.mem_cons.mp member with rfl | listed
  · exact Nat.lt_irrefl _ fresh.1
  · exact fresh.2.2 (refines.instrs_eq ▸ listed)

theorem refines_new : Refines [] ILRewriter.new where
  ring := Links.isRing_nil rfl rfl
  hub_lt := Nat.lt_succ_self _
  allocated := nofun
  members := fun _ => Iff.rfl

private theorem Refines.keep (refines : Refines operations s) {operation : Operation}
    (same : ∀ items, operation.onList items = items) (none : operation.inserts = none)
    (links : s'.links = s.links) (brk : s.brk ≤ s'.brk) : Refines (operations ++ [operation]) s' where
  ring := by
    rw [abstractList_snoc, same, links]
    exact refines.ring
  hub_lt := Nat.lt_of_lt_of_le refines.hub_lt brk
  allocated := by
    intro p member
    rw [abstractList_snoc, same] at member
    obtain ⟨low, high⟩ := refines.allocated p member
    exact ⟨low, Nat.lt_of_lt_of_le high brk⟩
  members := by
    intro p
    rw [abstractList_snoc, same, List.filterMap_append, List.filterMap_cons_none none]
    simpa using refines.members p

/-- One more node at its place. -/
private theorem Refines.insert (refines : Refines operations s) {operation : Operation} {index : Nat}
    (placed : operation.onList (abstractList operations) = (abstractList operations).insertIdx index pWhat)
    (inside : index ≤ (abstractList operations).length) (inserted : operation.inserts = some pWhat)
    (fresh : Fresh s pWhat) (ring : s'.links.IsRing m_IL ((abstractList operations).insertIdx index pWhat))
    (brk : s'.brk = s.brk) : Refines (operations ++ [operation]) s' where
  ring := by
    rw [abstractList_snoc, placed]
    exact ring
  hub_lt := by
    rw [brk]
    exact refines.hub_lt
  allocated := by
    intro p member
    rw [abstractList_snoc, placed, List.mem_insertIdx inside] at member
    rw [brk]
    rcases member with rfl | listed
    · exact ⟨fresh.1, fresh.2.1⟩
    · exact refines.allocated p listed
  members := by
    intro p
    rw [abstractList_snoc, placed, List.mem_insertIdx inside, List.filterMap_append, List.filterMap_cons_some inserted,
      List.mem_append, refines.members]
    simpa using or_comm

/-- One operation. -/
theorem Refines.step (refines : Refines operations s) (step : Step platform s operation s') :
    Refines (operations ++ [operation]) s' := by
  obtain ⟨allowed, rfl⟩ := step
  cases operation with
  | NewILInstr => exact refines.keep (fun _ => rfl) rfl rfl (Nat.le_succ _)
  | setOpcode | setOffset | setOperand => exact refines.keep (fun _ => rfl) rfl rfl (Nat.le_refl _)
  | InsertBefore pWhere pWhat =>
    obtain ⟨refers, fresh⟩ := allowed
    exact refines.insert rfl List.idxOf_le_length rfl fresh
      (refines.ring.insertBefore_spot (refines.spot refers) (refines.fresh fresh)) rfl
  | InsertAfter pWhere pWhat =>
    obtain ⟨refers, fresh⟩ := allowed
    have inside := List.idxOf_lt_length_of_mem (refines.spot refers)
    exact refines.insert rfl (Nat.le_of_lt_succ inside) rfl fresh
      (refines.ring.insertAfter_spot (refines.spot refers) (refines.fresh fresh)) rfl

theorem refines_run (run : Run (Step platform) ILRewriter.new operations s) : Refines operations s :=
  run.invariant Refines refines_new fun _ _ _ _ refines step => refines.step step

/-- The counter and the next address count the nodes that were created. -/
theorem created_run (run : Run (Step platform) ILRewriter.new operations s) :
    s.brk = m_IL + 1 + operations.count .NewILInstr ∧ s.m_nInstrs = wrap32 (operations.count .NewILInstr) := by
  apply run.invariant fun operations s =>
    s.brk = m_IL + 1 + operations.count .NewILInstr ∧ s.m_nInstrs = wrap32 (operations.count .NewILInstr)
  · exact ⟨rfl, rfl⟩
  · intro operations s operation s' counted step
    obtain ⟨-, rfl⟩ := step
    rw [List.count_append]
    cases operation with
    | NewILInstr =>
      refine ⟨congrArg (· + 1) counted.1, ?_⟩
      change wrap32 (s.m_nInstrs + 1) = _
      rw [counted.2, wrap32_add_left]
      rfl
    | _ => exact counted

/-- With every created node inserted, the list has as many nodes as were created. -/
theorem length_of_inserted (run : Run (Step platform) ILRewriter.new operations s)
    (all : ∀ p, m_IL < p → p < s.brk → p ∈ abstractList operations) :
    (abstractList operations).length = operations.count .NewILInstr := by
  have refines := refines_run run
  have perm : (abstractList operations).Perm (List.range' (m_IL + 1) (operations.count .NewILInstr)) := by
    refine (List.perm_ext_iff_of_nodup refines.ring.items_nodup List.nodup_range').mpr fun p => ?_
    rw [List.mem_range'_1, ← (created_run run).1]
    constructor
    · exact refines.allocated p
    · intro inside
      exact all p inside.1 inside.2
  rw [perm.length_eq, List.length_range']

/-- In every state that insertions lead to, the links agree with each other and with the list that the
insertions make, in both directions, each inserted node stands there once, and `m_nInstrs` counts the
created nodes modulo 2^32. -/
theorem insertions_refine (run : Run (Step platform) ILRewriter.new operations s) :
    (∀ p ∈ m_IL :: abstractList operations, s.m_pPrev (s.m_pNext p) = p ∧ s.m_pNext (s.m_pPrev p) = p) ∧
    (m_IL :: abstractList operations).Nodup ∧
    (∀ p, p ∈ abstractList operations ↔ p ∈ operations.filterMap inserts) ∧
    List.iterate s.m_pNext (s.m_pNext m_IL) ((abstractList operations).length + 1) =
      abstractList operations ++ [m_IL] ∧
    List.iterate s.m_pPrev (s.m_pPrev m_IL) ((abstractList operations).length + 1) =
      (abstractList operations).reverse ++ [m_IL] ∧
    s.instrs = abstractList operations ∧
    ((∀ p, m_IL < p → p < s.brk → p ∈ abstractList operations) →
      s.m_nInstrs = (abstractList operations).length % 2 ^ 32) := by
  have refines := refines_run run
  have ring := refines.ring
  refine ⟨?_, ring.nodup, refines.members, ring.iterate_next, ring.iterate_prev, refines.instrs_eq, ?_⟩
  · intro p member
    exact ⟨ring.prev_next member, ring.next_prev member⟩
  · intro all
    rw [length_of_inserted run all]
    exact (created_run run).2

end Refinement

section Witness

open Operation

/-- Nodes that are created and appended one after the other. -/
def appended : (count : Nat) → List Operation
  | 0 => []
  | count + 1 => appended count ++ [.NewILInstr] ++ [.InsertBefore m_IL (m_IL + 1 + count)]

private theorem appended_counts (count : Nat) : abstractList (appended count) = List.range' (m_IL + 1) count ∧
    (appended count).count .NewILInstr = count := by
  induction count with
  | zero => exact ⟨rfl, rfl⟩
  | succ count ih =>
    have outside : m_IL ∉ List.range' (m_IL + 1) count := by simp
    constructor
    · rw [appended, abstractList_snoc, abstractList_snoc, ih.1]
      simp only [onList]
      rw [List.idxOf_of_notMem outside, List.insertIdx_length_self, List.range'_concat, Nat.one_mul]
    · rw [appended, List.count_append, List.count_append, ih.2]
      rfl

private theorem appended_run (platform : Platform) (count : Nat) :
    ∃ s, Run (Step platform) ILRewriter.new (appended count) s := by
  induction count with
  | zero => exact ⟨_, .nil⟩
  | succ count ih =>
    obtain ⟨s, run⟩ := ih
    have created : Run (Step platform) ILRewriter.new (appended count ++ [.NewILInstr]) s.NewILInstr.2 :=
      run.snoc ⟨trivial, rfl⟩
    have listed : abstractList (appended count ++ [.NewILInstr]) = List.range' (m_IL + 1) count := by
      rw [abstractList_snoc]
      exact (appended_counts count).1
    refine ⟨_, created.snoc ⟨⟨.inl rfl, ?_, ?_, ?_⟩, rfl⟩⟩
    · exact Nat.lt_of_lt_of_le (Nat.lt_succ_self _) (Nat.le_add_right ..)
    · rw [(created_run created).1, List.count_append, (appended_counts count).2]
      exact Nat.lt_succ_self _
    · rw [(refines_run created).instrs_eq, listed]
      simp

/-- A node behind the sentinel, and another one in front of it. -/
theorem insertions_refine_pair : ∃ s,
    Run (Step Ecma335.platform) ILRewriter.new [.NewILInstr, .InsertAfter m_IL 2, .NewILInstr, .InsertBefore 2 3] s ∧
    List.iterate s.m_pNext (s.m_pNext m_IL) 3 = [3, 2, m_IL] ∧
      List.iterate s.m_pPrev (s.m_pPrev m_IL) 3 = [2, 3, m_IL] ∧
    s.m_nInstrs = 2 := by
  have first : Run (Step Ecma335.platform) ILRewriter.new [.NewILInstr, .InsertAfter m_IL 2] _ :=
    (Run.single ⟨trivial, rfl⟩).snoc ⟨⟨.inl rfl, by decide, by decide, by decide⟩, rfl⟩
  have second : Run (Step Ecma335.platform) ILRewriter.new [.NewILInstr, .InsertAfter m_IL 2, .NewILInstr] _ :=
    first.snoc ⟨trivial, rfl⟩
  have third : Run (Step Ecma335.platform) ILRewriter.new
      [.NewILInstr, .InsertAfter m_IL 2, .NewILInstr, .InsertBefore 2 3] _ :=
    second.snoc ⟨⟨.inr (by decide), by decide, by decide, by decide⟩, rfl⟩
  obtain ⟨-, -, -, next, prev, -, count⟩ := insertions_refine third
  refine ⟨_, third, next, prev, count fun p low high => ?_⟩
  have between (p : Nat) (low : 1 < p) (high : p < 4) : p = 2 ∨ p = 3 := by omega
  rcases between p low high with rfl | rfl <;> decide

/-- The counter comes back to zero behind 2^32 nodes. -/
theorem counter_wraps : ¬ ∀ (operations : List Operation) (s : ILRewriter),
    Run (Step Ecma335.platform) ILRewriter.new operations s →
    (∀ p, m_IL < p → p < s.brk → p ∈ abstractList operations) → s.m_nInstrs = (abstractList operations).length := by
  intro counted
  obtain ⟨s, run⟩ := appended_run Ecma335.platform (2 ^ 32)
  obtain ⟨listed, created⟩ := appended_counts (2 ^ 32)
  obtain ⟨brk, count⟩ := created_run run
  rw [created] at brk count
  have same := counted _ s run fun p low high => by
    rw [listed, List.mem_range'_1, ← brk]
    exact ⟨low, high⟩
  rw [listed, List.length_range', count, wrap32, Nat.mod_self] at same
  exact absurd same (by decide)

end Witness

end ClrProfiling
