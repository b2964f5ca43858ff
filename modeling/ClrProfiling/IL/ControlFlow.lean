import ClrProfiling.Foundation.FlowGraph
import ClrProfiling.IL.Listing

/-! The control flow of an instruction list: fall-through, branch and leave targets, and
the targets of a `switch`, which stand behind it as nodes of their own. -/

namespace ClrProfiling

open LinkedRing FlowGraph

section Flow

variable (platform : Platform)

/-- Whether a node is a target of the `switch` in front of it. -/
def Instr.isArgument (node : Instr) : Bool := node.opcode == platform.CEE_SWITCH_ARG

/-- The nodes behind a node. -/
def behind (nodes : List Instr) (node : Instr) : List Instr := (nodes.dropWhile (· ≠ node)).tail

/-- The instruction control falls through to. -/
def fallThrough (nodes : List Instr) (node : Instr) : Option Instr :=
  if platform.fallsThrough node.opcode then ((behind nodes node).dropWhile (Instr.isArgument platform)).head? else none

/-- The addresses an instruction may jump to. -/
def jumps (nodes : List Instr) (node : Instr) : List Ptr :=
  if node.isBranch platform then [node.operand]
  else if node.opcode = CEE_SWITCH then
    ((behind nodes node).takeWhile (Instr.isArgument platform)).map Instr.operand
  else []

def successors (nodes : List Instr) (node : Instr) : List Instr :=
  (fallThrough platform nodes node).toList ++ nodes.filter fun next => next.ptr ∈ jumps platform nodes node

/-- Control starts at the first node and goes from every instruction to its successors. -/
def flowGraph (nodes : List Instr) : Graph Instr where
  start node := nodes.head? = some node
  step node next := node ∈ nodes ∧ next ∈ successors platform nodes node

end Flow

section Cuts

variable {platform : Platform}

theorem behind_eq {before after : List Instr} (fresh : node ∉ before) :
    behind (before ++ node :: after) node = after := by
  have stops : (before ++ node :: after).dropWhile (· ≠ node) = node :: after := by
    rw [List.dropWhile_append_of_pos fun other member => ?_]
    · simp
    · exact decide_eq_true fun same => fresh (same ▸ member)
  rw [behind, stops, List.tail_cons]

theorem behind_cut {before after : List Instr} (nodup : (before ++ node :: after).Nodup) :
    behind (before ++ node :: after) node = after :=
  behind_eq fun member => (List.nodup_append.mp nodup).2.2 node member node (List.mem_cons_self ..) rfl

theorem step_iff {nodes : List Instr} : (flowGraph platform nodes).step node next ↔
    node ∈ nodes ∧ (fallThrough platform nodes node = some next ∨
      next ∈ nodes ∧ next.ptr ∈ jumps platform nodes node) := by
  simp only [flowGraph, successors, List.mem_append, Option.mem_toList, List.mem_filter, decide_eq_true_eq]

theorem fallThrough_mem {nodes : List Instr} (falls : fallThrough platform nodes node = some next) : next ∈ nodes := by
  unfold fallThrough at falls
  split at falls
  · have member := List.mem_of_mem_head? (Option.mem_def.mpr falls)
    exact (List.dropWhile_subset _) (List.mem_of_mem_tail ((List.dropWhile_subset _) member))
  · cases falls

theorem step_mem {nodes : List Instr} (step : (flowGraph platform nodes).step node next) : next ∈ nodes := by
  rcases (step_iff.mp step).2 with falls | ⟨member, -⟩
  · exact fallThrough_mem falls
  · exact member

/-- The jumps of a list are operands of its branches, for whichever instruction they are made. -/
theorem jumps_operand {nodes : List Instr} (member : node ∈ nodes) (jump : p ∈ jumps platform nodes node) :
    ∃ branch ∈ nodes, branch.isBranch platform ∧ p = branch.operand := by
  unfold jumps at jump
  split at jump
  · rename_i isBranch
    exact ⟨node, member, isBranch, List.mem_singleton.mp jump⟩
  · split at jump
    · obtain ⟨argument, listed, rfl⟩ := List.mem_map.mp jump
      have internal : argument.opcode = platform.CEE_SWITCH_ARG := by
        simpa [Instr.isArgument] using List.mem_takeWhile_imp listed
      refine ⟨argument, ?_, ?_, rfl⟩
      · exact (List.dropWhile_subset _) (List.mem_of_mem_tail ((List.takeWhile_subset _) listed))
      · exact .of_switchArg internal
    · simp at jump

theorem step_of_plain {nodes : List Instr} (plain : ¬node.isBranch platform) (notSwitch : node.opcode ≠ CEE_SWITCH) :
    (flowGraph platform nodes).step node next ↔ node ∈ nodes ∧ fallThrough platform nodes node = some next := by
  rw [step_iff, jumps, if_neg plain, if_neg notSwitch]
  simp

private theorem dropWhile_head {nodes : List Instr} {skip : Instr → Bool}
    (head : (nodes.dropWhile skip).head? = some next) :
    ∃ skipped after, nodes = skipped ++ next :: after ∧ ∀ node ∈ skipped, skip node = true := by
  refine ⟨nodes.takeWhile skip, (nodes.dropWhile skip).tail, ?_, fun node member => List.mem_takeWhile_imp member⟩
  rw [List.head?_eq_some_iff] at head
  obtain ⟨rest, whole⟩ := head
  rw [whole, List.tail_cons, ← whole, List.takeWhile_append_dropWhile]

theorem cut_unique {before after before' after' : List Instr} (nodup : (before ++ node :: after).Nodup)
    (same : before' ++ node :: after' = before ++ node :: after) : before' = before ∧ after' = after := by
  rw [List.nodup_middle, List.nodup_cons] at nodup
  have outside : node ∉ before := fun member => nodup.1 (List.mem_append_left _ member)
  have outside' : node ∉ after := fun member => nodup.1 (List.mem_append_right _ member)
  obtain ⟨first, -, last⟩ := (List.append_cons_inj_of_notMem outside outside').mp same.symm
  exact ⟨first.symm, last.symm⟩

/-- A fall-through skips nothing but `switch` targets. -/
theorem fallThrough_eq_some {nodes : List Instr} (nodup : nodes.Nodup) (member : node ∈ nodes)
    (falls : fallThrough platform nodes node = some next) :
    platform.fallsThrough node.opcode = true ∧
      ∃ before skipped after, nodes = before ++ node :: (skipped ++ next :: after) ∧
      ∀ argument ∈ skipped, argument.isArgument platform = true := by
  obtain ⟨before, after, rfl⟩ := List.append_of_mem member
  unfold fallThrough at falls
  split at falls
  · rename_i through
    rw [behind_cut nodup] at falls
    obtain ⟨skipped, after', rfl, arguments⟩ := dropWhile_head falls
    exact ⟨through, before, skipped, after', rfl, arguments⟩
  · cases falls

/-- What no jump leads to is entered from the instruction in front of it alone. -/
theorem enteredFrom_cut {before after : List Instr} (nodup : (before ++ previous :: node :: after).Nodup)
    (external : previous.isArgument platform = false)
    (fresh : ∀ other ∈ before ++ previous :: node :: after, other.isBranch platform → other.operand ≠ node.ptr) :
    (flowGraph platform (before ++ previous :: node :: after)).EnteredFrom previous node := by
  have cut : ((before ++ [previous]) ++ node :: after).Nodup := by simpa using nodup
  constructor
  · intro start
    have first : ([] : List Instr) = before ++ [previous] := by
      obtain ⟨rest, whole⟩ := List.head?_eq_some_iff.mp start
      exact (cut_unique cut (show [] ++ node :: rest = _ by simpa using whole.symm)).1
    exact absurd first.symm (by simp)
  · intro other step
    obtain ⟨member, falls | ⟨-, jump⟩⟩ := step_iff.mp step
    · obtain ⟨-, front, skipped, rest, whole, arguments⟩ := fallThrough_eq_some nodup member falls
      have same := (cut_unique cut (show (front ++ other :: skipped) ++ node :: rest = _ by simpa using whole.symm)).1
      cases skipped using List.reverseRecOn with
      | nil => exact (List.append_inj' same rfl).2 |> List.singleton_inj.mp
      | append_singleton others last =>
        rw [← List.cons_append, ← List.append_assoc] at same
        have last_eq := List.singleton_inj.mp (List.append_inj' same rfl).2
        rw [← last_eq, arguments last (by simp)] at external
        cases external
    · obtain ⟨branch, listed, isBranch, target⟩ := jumps_operand member jump
      exact absurd target.symm (fresh branch listed isBranch)

/-- What no jump leads to and nothing stands in front of is not entered at all. -/
theorem unentered_head {after : List Instr} (nodup : (node :: after).Nodup)
    (fresh : ∀ other ∈ node :: after, other.isBranch platform → other.operand ≠ node.ptr) :
    ∀ other, ¬(flowGraph platform (node :: after)).step other node := by
  intro other step
  obtain ⟨member, falls | ⟨-, jump⟩⟩ := step_iff.mp step
  · obtain ⟨-, front, skipped, rest, whole, -⟩ := fallThrough_eq_some nodup member falls
    have same := (cut_unique (show ([] ++ node :: after).Nodup from nodup)
      (show (front ++ other :: skipped) ++ node :: rest = [] ++ node :: after by simpa using whole.symm)).1
    simp at same
  · obtain ⟨branch, listed, isBranch, target⟩ := jumps_operand member jump
    exact fresh branch listed isBranch target.symm

end Cuts

end ClrProfiling
