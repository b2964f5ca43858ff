import ClrProfiling.Foundation.NestedWord
import ClrProfiling.IL.MaxStack
import ClrProfiling.IL.ReportedTokens

/-! What a thread reports of the methods with hooks that it invokes, however it leaves them. -/

namespace ClrProfiling

open LinkedRing FlowGraph ILRewriter NestedWord

/-- A method is left by a RET, by an exception of the exit hook in front of it, or by another exception. -/
inductive Ending where
  | ret
  | exitHook
  | exception
deriving DecidableEq, Repr

/-- A method that `InjectEnterExitHooks` has given both hooks, with the lists it has built. -/
structure Instrumented (platform : Platform) where
  body : MethodBody
  onEnterHook : UInt32
  onExitHook : UInt32
  token : UInt64
  imported : ILRewriter
  probed : ILRewriter
  result : Exported
  enter : onEnterHook ≠ mdTokenNil
  exit : onExitHook ≠ mdTokenNil
  accepted : Import platform body = .ok imported
  added : imported.AddProbes platform ⟨onEnterHook, onExitHook, some token⟩ = .ok probed
  exported : probed.Export platform = .ok result

namespace Instrumented

variable {platform : Platform}

theorem run (method : Instrumented platform) :
    InjectEnterExitHooks platform method.body ⟨method.onEnterHook, method.onExitHook, some method.token⟩ =
      .ok method.result := by
  rw [InjectEnterExitHooks, method.accepted, Outcome.ok_bind, method.added, Outcome.ok_bind, method.exported]

theorem of_run {body : MethodBody} {onEnterHook onExitHook : UInt32} {token : UInt64} {result : Exported}
    (run : InjectEnterExitHooks platform body ⟨onEnterHook, onExitHook, some token⟩ = .ok result)
    (enter : onEnterHook ≠ mdTokenNil) (exit : onExitHook ≠ mdTokenNil) :
    ∃ method : Instrumented platform, method.body = body ∧ method.onEnterHook = onEnterHook ∧
      method.onExitHook = onExitHook ∧ method.token = token ∧ method.result = result := by
  obtain ⟨imported, accepted, rest⟩ := Outcome.bind_eq_ok_iff.mp run
  obtain ⟨probed, added, exported⟩ := Outcome.bind_eq_ok_iff.mp rest
  exact ⟨⟨body, onEnterHook, onExitHook, token, imported, probed, result, enter, exit, accepted, added, exported⟩,
    rfl, rfl, rfl, rfl, rfl⟩

/-- The events of a method. -/
def enterCall (method : Instrumented platform) : HookCall := ⟨method.onEnterHook.toNat, reported method.token⟩

def exitCall (method : Instrumented platform) : HookCall := ⟨method.onExitHook.toNat, reported method.token⟩

/-- What an invocation closes with: the exit hook is called in front of a RET. -/
def closing (method : Instrumented platform) (ending : Ending) : List HookCall :=
  if ending = .exception then [] else [method.exitCall]

variable (method : Instrumented platform)

/-- A call that the probes have added. -/
def CallsHook (node : Instr) : Prop := node.opcode = CEE_CALL ∧ node.ptr ∉ method.imported.instrs

/-- Any other instruction, but for the constants and RETs. -/
def Plain (node : Instr) : Prop := node.opcode ≠ CEE_RET ∧ node.opcode ≠ CEE_LDC_I4 ∧ ¬method.CallsHook node

/-- Control goes along the list, or from any instruction to a handler or filter, or from the end
of a finally block to where a LEAVE leads. -/
def GoesOn (node next : Instr) : Prop :=
  (flowGraph platform method.probed.listing).step node next ∨
    next ∈ method.probed.listing ∧
      ((∃ clause ∈ method.probed.m_pEH, next.ptr = clause.m_pHandlerBegin ∨ next.ptr = clause.m_pFilter) ∨
        ∃ branch ∈ method.probed.listing, branch.isBranch platform ∧ next.ptr = branch.operand)

/-- How a method runs from a node on, with its calls of hooks and what else it invokes. The
evaluation stack is known as far as constants are on it. What is no call of a hook can invoke
anything, and throw; hooks can throw, but invoke nothing, and no handler covers them. -/
inductive Runs {Inner : Type} : Instr → List StackValue → List (HookCall ⊕ Inner) → Ending → Prop
  | ret (opcode : node.opcode = CEE_RET) : Runs node stack [] .ret
  | load (opcode : node.opcode = CEE_LDC_I4) (step : (flowGraph platform method.probed.listing).step node next)
      (rest : Runs next (.int32 (.ofNat 32 node.operand) :: stack) trace ending) : Runs node stack trace ending
  | hook (calls : method.CallsHook node) (step : (flowGraph platform method.probed.listing).step node next)
      (rest : Runs next stack trace ending) :
    Runs node (argument :: stack) (.inl ⟨node.operand % 2 ^ 32, argument⟩ :: trace) ending
  | hookThrows (calls : method.CallsHook node) (step : (flowGraph platform method.probed.listing).step node next) :
    Runs node (argument :: stack) [.inl ⟨node.operand % 2 ^ 32, argument⟩]
      (if next.opcode = CEE_RET then .exitHook else .exception)
  | goesOn (plain : method.Plain node) (inner : List Inner) (on : method.GoesOn node next)
      (rest : Runs next stack' trace ending) : Runs node stack (inner.map .inr ++ trace) ending
  | throws (plain : method.Plain node) (inner : List Inner) : Runs node stack (inner.map .inr) .exception

section Probes

/-- What follows what in a list with both probes. -/
inductive Leads : Probed → Probed → Prop
  | enterLoads : Leads ⟨⟨p, CEE_LDC_I4, method.token.toNat⟩, .enterProbe⟩
    ⟨⟨q, CEE_CALL, method.onEnterHook.toNat⟩, .enterProbe⟩
  | enterCalls (kept : other.added = false) : Leads ⟨⟨p, CEE_CALL, method.onEnterHook.toNat⟩, .enterProbe⟩ other
  | original : Leads ⟨node, .original⟩ other
  | replaced : Leads ⟨node, .replaced ret⟩ ⟨⟨p, CEE_LDC_I4, method.token.toNat⟩, .exitProbe ret⟩
  | exitLoads : Leads ⟨⟨p, CEE_LDC_I4, method.token.toNat⟩, .exitProbe ret⟩
      ⟨⟨q, CEE_CALL, method.onExitHook.toNat⟩, .exitProbe ret⟩
  | exitCalls : Leads ⟨⟨p, CEE_CALL, method.onExitHook.toNat⟩, .exitProbe ret⟩ ⟨⟨q, CEE_RET, 0⟩, .returns ret⟩
  | returns : Leads ⟨node, .returns ret⟩ other

private theorem leads_exits (expanded : Expanded method.onExitHook (some method.token) nodes exits) :
    exits.IsChain method.Leads := by
  induction expanded with
  | nil => exact .nil
  | keep node rest ih => exact List.isChain_cons.mpr ⟨fun _ _ => .original, ih⟩
  | ret node opcode brk newRet rest ih =>
    exact List.isChain_cons_cons.mpr ⟨.replaced, List.isChain_cons_cons.mpr ⟨.exitLoads,
      List.isChain_cons_cons.mpr ⟨.exitCalls, List.isChain_cons.mpr ⟨fun _ _ => .returns, ih⟩⟩⟩⟩

private theorem head_kept {hook : UInt32} {hookArg : Option UInt64} (expanded : Expanded hook hookArg nodes exits) :
    ∀ entry ∈ exits.head?, entry.added = false := by
  cases expanded with
  | nil => exact nofun
  | keep => rintro _ ⟨⟩; rfl
  | ret => rintro _ ⟨⟩; rfl

/-- The list of a method with both probes. -/
structure Shape (nodes enter : List Instr) (exits : List Probed) (p : Ptr) : Prop where
  probes : Probes platform method.onExitHook (some method.token) nodes enter exits
  listing : method.probed.listing = (entries enter exits).map Probed.node
  instrs : method.imported.instrs = nodes.map Instr.ptr
  apart : ClausesApart method.probed.m_pEH nodes (entries enter exits)
  chain : (entries enter exits).IsChain method.Leads
  first : (entries enter exits).head? = some ⟨⟨p, CEE_LDC_I4, method.token.toNat⟩, .enterProbe⟩
  rets : ∀ node, ⟨node, .original⟩ ∈ entries enter exits → node.opcode ≠ CEE_RET

theorem exists_shape : ∃ nodes enter exits p, method.Shape nodes enter exits p := by
  obtain ⟨instrs, imported⟩ := Import_eq_ok method.accepted
  have injected := injected_of_added imported method.added
  have apart := imported_apart injected
  have listing := injected.holds.listing_eq
  rw [injectedNodes, ← imported.brk] at listing
  rw [← injected.clauses, injectedNodes, ← imported.brk] at apart
  have enterNodes_eq : enterNodes ⟨method.onEnterHook, method.onExitHook, some method.token⟩ method.imported.brk =
      [⟨method.imported.brk, CEE_LDC_I4, method.token.toNat⟩,
        ⟨method.imported.brk + 1, CEE_CALL, method.onEnterHook.toNat⟩] :=
    if_pos method.enter
  have probes := imported_probes imported injected
  refine ⟨importedNodes platform instrs, _, _, method.imported.brk, probes, listing, imported.holds.instrs_eq, apart,
    ?_, ?_, fun node member => ?_⟩
  · have exits := method.leads_exits probes.expanded
    rw [entries, enterNodes_eq]
    exact List.isChain_cons_cons.mpr ⟨.enterLoads, List.isChain_cons.mpr
      ⟨fun other first => .enterCalls (head_kept probes.expanded other first), exits⟩⟩
  · rw [entries, enterNodes_eq]
    rfl
  · rcases List.mem_append.mp member with inEnter | inExits
    · simp at inEnter
    · rw [exitEntries, if_pos method.exit] at inExits
      exact exitProbed_original _ inExits

variable {method} {nodes enter : List Instr} {exits : List Probed} {p : Ptr}

namespace Shape

/-- What was not added is what was imported. -/
theorem kept_iff (shape : method.Shape nodes enter exits p) (member : entry ∈ entries enter exits) :
    entry.added = false ↔ entry.node.ptr ∈ method.imported.instrs := by
  rw [shape.instrs]
  constructor
  · intro kept
    have sound := shape.probes.sound entry member
    obtain ⟨node, role⟩ := entry
    cases role with
    | original => exact List.mem_map_of_mem sound
    | replaced ret =>
      refine List.mem_map.mpr ⟨ret, sound.2.1, ?_⟩
      rw [sound.1]
    | _ => cases kept
  · intro inside
    obtain ⟨node, listed, same⟩ := List.mem_map.mp inside
    obtain ⟨other, otherMember, there, -, kept⟩ := shape.probes.entry_of_target listed
    rwa [shape.probes.entry_unique member otherMember (same.symm.trans there.symm)]

/-- A hidden entry leads to the next one. -/
theorem leads (shape : method.Shape nodes enter exits p) (member : entry ∈ entries enter exits)
    (hidden : entry.shown = none) (step : (flowGraph platform method.probed.listing).step entry.node node) :
    ∃ next ∈ entries enter exits, next.node = node ∧ method.Leads entry next := by
  obtain ⟨before, after, split⟩ := List.append_of_mem member
  rw [shape.listing] at step
  obtain ⟨next, rest, rfl, rfl⟩ := (shape.probes.step_hidden split hidden).mp step
  have chain := shape.chain
  rw [split] at chain
  refine ⟨next, ?_, rfl, (List.isChain_append_cons_cons.mp chain).2.1⟩
  rw [split]
  simp

/-- From an instruction of the body control goes on to one, or to the probe behind it. -/
theorem goesOn (shape : method.Shape nodes enter exits p) (member : entry ∈ entries enter exits)
    (kept : entry.added = false) (on : method.GoesOn entry.node node) :
    ∃ next ∈ entries enter exits, next.node = node ∧
      (next.added = false ∨ (∃ ret, entry.role = .replaced ret) ∧ method.Leads entry next) := by
  rcases on with step | ⟨inside, lands⟩
  · obtain ⟨node, role⟩ := entry
    cases role with
    | original =>
      rw [shape.listing] at step
      obtain ⟨next, listed, same, kept⟩ := shape.probes.step_original member step
      exact ⟨next, listed, same, .inl kept⟩
    | replaced ret =>
      obtain ⟨next, listed, same, leads⟩ := shape.leads member rfl step
      exact ⟨next, listed, same, .inr ⟨⟨ret, rfl⟩, leads⟩⟩
    | _ => cases kept
  · rw [shape.listing] at inside lands
    obtain ⟨next, listed, rfl⟩ := List.mem_map.mp inside
    refine ⟨next, listed, rfl, .inl ?_⟩
    rcases lands with ⟨clause, clauseMember, opens⟩ | ⟨branch, branchMember, isBranch, target⟩
    · have opened : ∃ depth, clause.opens next.node.ptr depth := by
        rcases opens with handler | filter
        · exact ⟨_, .inl ⟨handler, rfl⟩⟩
        · exact ⟨_, .inr ⟨filter, rfl⟩⟩
      obtain ⟨depth, opens⟩ := opened
      exact shape.probes.opens_kept shape.apart listed clauseMember opens
    · exact Bool.eq_false_iff.mpr fun added =>
        shape.probes.not_target listed added branch branchMember isBranch target.symm

end Shape

section Traces

variable {Inner : Type}

/-- What an invocation does behind its enter hook. -/
def Closes (method : Instrumented platform) (trace : List (HookCall ⊕ Inner)) (ending : Ending) : Prop :=
  ∃ inner : List Inner, trace = inner.map .inr ++ (method.closing ending).map .inl

/-- What a run from an entry does, given that the argument of a hook is on the stack in front of its call. -/
def Expects (method : Instrumented platform) (entry : Probed) (stack : List StackValue)
    (trace : List (HookCall ⊕ Inner)) (ending : Ending) : Prop :=
  match entry.role with
  | .original => method.Closes trace ending
  | .replaced _ => method.Closes trace ending
  | .enterProbe => (entry.node.opcode = CEE_CALL → stack.head? = some (reported method.token)) →
      ∃ rest, trace = .inl method.enterCall :: rest ∧ method.Closes rest ending
  | .exitProbe _ => (entry.node.opcode = CEE_CALL → stack.head? = some (reported method.token)) →
      trace = [.inl method.exitCall] ∧ ending ≠ .exception
  | .returns _ => trace = [] ∧ ending = .ret

theorem Expects.kept {entry : Probed} {stack : List StackValue} {trace : List (HookCall ⊕ Inner)} {ending : Ending}
    (expects : method.Expects entry stack trace ending) (kept : entry.added = false) : method.Closes trace ending := by
  obtain ⟨node, role⟩ := entry
  cases role with
  | original => exact expects
  | replaced ret => exact expects
  | _ => cases kept

private theorem Shape.kept_of_plain (shape : method.Shape nodes enter exits p) (member : entry ∈ entries enter exits)
    (plain : method.Plain entry.node) : entry.added = false := by
  obtain ⟨ret, constant, hook⟩ := plain
  by_contra added
  have fresh : entry.node.ptr ∉ method.imported.instrs := fun inside => added ((shape.kept_iff member).mpr inside)
  have sound := shape.probes.sound entry member
  obtain ⟨node, role⟩ := entry
  cases role with
  | original => exact added rfl
  | replaced => exact added rfl
  | enterProbe => rcases sound with opcode | opcode; exacts [constant opcode, hook ⟨opcode, fresh⟩]
  | exitProbe => rcases sound.1 with opcode | opcode; exacts [constant opcode, hook ⟨opcode, fresh⟩]
  | returns => exact ret sound.1

private theorem expects_ret (shape : method.Shape nodes enter exits p) (member : entry ∈ entries enter exits)
    (opcode : entry.node.opcode = CEE_RET) (stack : List StackValue) :
    method.Expects entry stack ([] : List (HookCall ⊕ Inner)) .ret := by
  have sound := shape.probes.sound entry member
  obtain ⟨node, role⟩ := entry
  cases role with
  | original => exact absurd opcode (shape.rets node member)
  | replaced ret => exact absurd opcode (by rw [sound.1]; exact show CEE_NOP ≠ CEE_RET by decide)
  | enterProbe => rcases sound with other | other <;> exact absurd (other.symm.trans opcode) (by decide)
  | exitProbe => rcases sound.1 with other | other <;> exact absurd (other.symm.trans opcode) (by decide)
  | returns => exact ⟨rfl, rfl⟩

private theorem expects_load (shape : method.Shape nodes enter exits p) (member : entry ∈ entries enter exits)
    (opcode : entry.node.opcode = CEE_LDC_I4) (step : (flowGraph platform method.probed.listing).step entry.node node)
    {stack : List StackValue} {trace : List (HookCall ⊕ Inner)} {ending : Ending}
    (rest : ∀ next ∈ entries enter exits, next.node = node →
      method.Expects next (.int32 (.ofNat 32 entry.node.operand) :: stack) trace ending) :
    method.Expects entry stack trace ending := by
  have sound := shape.probes.sound entry member
  by_cases hidden : entry.shown = none
  · obtain ⟨next, listed, same, leads⟩ := shape.leads member hidden step
    have expects := rest next listed same
    cases leads with
    | enterLoads => exact fun _ => expects fun _ => rfl
    | exitLoads => exact fun _ => expects fun _ => rfl
    | enterCalls => exact absurd opcode (show CEE_CALL ≠ CEE_LDC_I4 by decide)
    | exitCalls => exact absurd opcode (show CEE_CALL ≠ CEE_LDC_I4 by decide)
    | original => cases hidden
    | replaced => exact absurd opcode (by rw [sound.1]; exact show CEE_NOP ≠ CEE_LDC_I4 by decide)
    | returns => cases hidden
  · obtain ⟨node', role⟩ := entry
    cases role with
    | original =>
      obtain ⟨next, listed, same, kept | ⟨⟨ret, role⟩, -⟩⟩ := shape.goesOn member rfl (.inl step)
      · exact (rest next listed same).kept kept
      · cases role
    | returns => exact absurd (sound.1.symm.trans opcode) (by decide)
    | _ => exact absurd rfl hidden

/-- A call of a hook is the one of the enter probe, in front of the body, or that of an exit
probe, in front of its RET. -/
private theorem hook_cases (shape : method.Shape nodes enter exits p) (member : entry ∈ entries enter exits)
    (calls : method.CallsHook entry.node) (step : (flowGraph platform method.probed.listing).step entry.node node) :
    (∃ q, entry = ⟨⟨q, CEE_CALL, method.onEnterHook.toNat⟩, .enterProbe⟩ ∧
        ∃ next ∈ entries enter exits, next.node = node ∧ next.added = false ∧ node.opcode ≠ CEE_RET) ∨
      ∃ q ret r, entry = ⟨⟨q, CEE_CALL, method.onExitHook.toNat⟩, .exitProbe ret⟩ ∧
        ⟨⟨r, CEE_RET, 0⟩, .returns ret⟩ ∈ entries enter exits ∧ node = ⟨r, CEE_RET, 0⟩ := by
  obtain ⟨opcode, fresh⟩ := calls
  have added : entry.added ≠ false := fun kept => fresh ((shape.kept_iff member).mp kept)
  have hidden : entry.shown = none := by
    have sound := shape.probes.sound entry member
    obtain ⟨node', role⟩ := entry
    cases role with
    | original => exact absurd rfl added
    | returns => exact absurd (sound.1.symm.trans opcode) (by decide)
    | _ => rfl
  obtain ⟨next, listed, rfl, leads⟩ := shape.leads member hidden step
  cases leads with
  | enterCalls kept =>
    refine .inl ⟨_, rfl, next, listed, rfl, kept, ?_⟩
    have sound := shape.probes.sound next listed
    obtain ⟨node', role⟩ := next
    cases role with
    | original => exact shape.rets node' listed
    | replaced ret =>
      rw [sound.1]
      exact show CEE_NOP ≠ CEE_RET by decide
    | _ => cases kept
  | exitCalls => exact .inr ⟨_, _, _, rfl, listed, rfl⟩
  | enterLoads => exact absurd opcode (show CEE_LDC_I4 ≠ CEE_CALL by decide)
  | exitLoads => exact absurd opcode (show CEE_LDC_I4 ≠ CEE_CALL by decide)
  | original => cases hidden
  | replaced => exact absurd rfl added
  | returns => cases hidden

private theorem hookCall_eq (hook : UInt32) (argument : StackValue) :
    (⟨hook.toNat % 2 ^ 32, argument⟩ : HookCall) = ⟨hook.toNat, argument⟩ := by
  rw [Nat.mod_eq_of_lt hook.toNat_lt]

private theorem expects_hook (shape : method.Shape nodes enter exits p) (member : entry ∈ entries enter exits)
    (calls : method.CallsHook entry.node) (step : (flowGraph platform method.probed.listing).step entry.node node)
    {argument : StackValue} {stack : List StackValue} {trace : List (HookCall ⊕ Inner)} {ending : Ending}
    (rest : ∀ next ∈ entries enter exits, next.node = node → method.Expects next stack trace ending) :
    method.Expects entry (argument :: stack) (.inl ⟨entry.node.operand % 2 ^ 32, argument⟩ :: trace) ending := by
  rcases hook_cases shape member calls step with ⟨q, rfl, next, listed, same, kept, -⟩ | ⟨q, ret, r, rfl, listed, rfl⟩
  · intro passed
    obtain rfl : argument = reported method.token := Option.some.inj (passed rfl)
    refine ⟨trace, ?_, (rest next listed same).kept kept⟩
    rw [hookCall_eq]
    rfl
  · intro passed
    obtain rfl : argument = reported method.token := Option.some.inj (passed rfl)
    obtain ⟨rfl, rfl⟩ := rest _ listed rfl
    refine ⟨?_, nofun⟩
    rw [hookCall_eq]
    rfl

private theorem expects_hookThrows (shape : method.Shape nodes enter exits p) (member : entry ∈ entries enter exits)
    (calls : method.CallsHook entry.node) (step : (flowGraph platform method.probed.listing).step entry.node node)
    (argument : StackValue) (stack : List StackValue) :
    method.Expects entry (argument :: stack)
      ([.inl ⟨entry.node.operand % 2 ^ 32, argument⟩] : List (HookCall ⊕ Inner))
      (if node.opcode = CEE_RET then .exitHook else .exception) := by
  rcases hook_cases shape member calls step with ⟨q, rfl, next, listed, same, kept, opcode⟩ |
    ⟨q, ret, r, rfl, listed, rfl⟩
  · intro passed
    obtain rfl : argument = reported method.token := Option.some.inj (passed rfl)
    rw [if_neg opcode, hookCall_eq]
    exact ⟨[], rfl, [], rfl⟩
  · intro passed
    obtain rfl : argument = reported method.token := Option.some.inj (passed rfl)
    rw [if_pos rfl, hookCall_eq]
    exact ⟨rfl, nofun⟩

private theorem expects_of_closes {entry : Probed} (kept : entry.added = false) (stack : List StackValue)
    {trace : List (HookCall ⊕ Inner)} {ending : Ending} (closes : method.Closes trace ending) :
    method.Expects entry stack trace ending := by
  obtain ⟨node, role⟩ := entry
  cases role with
  | original => exact closes
  | replaced ret => exact closes
  | _ => cases kept

private theorem expects_goesOn (shape : method.Shape nodes enter exits p) (member : entry ∈ entries enter exits)
    (plain : method.Plain entry.node) (inner : List Inner) (on : method.GoesOn entry.node node)
    (stack : List StackValue)
    {stack' : List StackValue} {trace : List (HookCall ⊕ Inner)} {ending : Ending}
    (rest : ∀ next ∈ entries enter exits, next.node = node → method.Expects next stack' trace ending) :
    method.Expects entry stack (inner.map .inr ++ trace) ending := by
  have kept := shape.kept_of_plain member plain
  apply expects_of_closes kept stack
  obtain ⟨next, listed, same, kept | ⟨⟨ret, role⟩, leads⟩⟩ := shape.goesOn member kept on
  · obtain ⟨more, rfl⟩ := (rest next listed same).kept kept
    refine ⟨inner ++ more, ?_⟩
    rw [List.map_append, List.append_assoc]
  · obtain ⟨node', _⟩ := entry
    cases role
    have expects := rest next listed same
    cases leads with
    | replaced =>
      obtain ⟨rfl, left⟩ := expects fun opcode => absurd opcode (show CEE_LDC_I4 ≠ CEE_CALL by decide)
      refine ⟨inner, ?_⟩
      rw [closing, if_neg left]
      rfl

theorem Runs.expects (shape : method.Shape nodes enter exits p) {node : Instr} {stack : List StackValue}
    {trace : List (HookCall ⊕ Inner)} {ending : Ending} (runs : method.Runs node stack trace ending) :
    ∀ entry ∈ entries enter exits, entry.node = node → method.Expects entry stack trace ending := by
  induction runs with
  | ret opcode =>
    rintro entry member rfl
    exact expects_ret shape member opcode _
  | load opcode step _ ih =>
    rintro entry member rfl
    exact expects_load shape member opcode step ih
  | hook calls step _ ih =>
    rintro entry member rfl
    exact expects_hook shape member calls step ih
  | hookThrows calls step =>
    rintro entry member rfl
    exact expects_hookThrows shape member calls step _ _
  | goesOn plain inner on _ ih =>
    rintro entry member rfl
    exact expects_goesOn shape member plain inner on _ ih
  | throws plain inner =>
    rintro entry member rfl
    refine expects_of_closes (shape.kept_of_plain member plain) _ ⟨inner, ?_⟩
    rw [closing, if_pos rfl, List.map_nil, List.append_nil]

theorem Runs.bracketed {first : Instr} {trace : List (HookCall ⊕ Inner)} {ending : Ending}
    (start : (flowGraph platform method.probed.listing).start first) (runs : method.Runs first [] trace ending) :
    ∃ inner : List Inner, trace = .inl method.enterCall :: (inner.map .inr ++ (method.closing ending).map .inl) := by
  obtain ⟨nodes, enter, exits, p, shape⟩ := method.exists_shape
  have head : method.probed.listing.head? = some first := start
  rw [shape.listing, List.head?_map, shape.first] at head
  obtain rfl := Option.some.inj head
  have expects := runs.expects shape _ (List.mem_of_mem_head? shape.first) rfl
  obtain ⟨rest, rfl, inner, rfl⟩ := expects fun opcode => absurd opcode (show CEE_LDC_I4 ≠ CEE_CALL by decide)
  exact ⟨inner, rfl⟩

end Traces

end Probes

end Instrumented

section Words

variable {platform : Platform} {Method : Type} (program : Method → Instrumented platform)

/-- A tree of completed invocations of instrumented methods. -/
def Completed : Invocation Method Ending HookCall → Prop :=
  Invocation.Everywhere fun method ending trace => ∃ first,
    (flowGraph platform (program method).probed.listing).start first ∧ (program method).Runs first [] trace ending

/-- Every invocation enters in front of all that it invokes, and exits behind it. -/
def balancedWord : Invocation Method Ending HookCall → List HookCall :=
  Invocation.word (fun method => (program method).enterCall) fun method _ => [(program method).exitCall]

/-- Every invocation enters in front of all that it invokes, and exits behind it where it gets to a RET. -/
def reportedWord : Invocation Method Ending HookCall → List HookCall :=
  Invocation.word (fun method => (program method).enterCall) fun method ending => (program method).closing ending

variable {program}

private theorem closing_eq_iff (method : Instrumented platform) (ending : Ending) :
    method.closing ending = [method.exitCall] ↔ ending ≠ .exception := by
  rw [Instrumented.closing]
  split
  · rename_i left
    exact iff_of_false nofun fun other => other left
  · rename_i other
    exact iff_of_true rfl other

/-- The events of every tree of completed invocations are those of its calls in their nesting,
without the exits of the invocations that an exception leaves in front of a RET; so they are
balanced exactly where no exception does so. -/
theorem events_reported {invocation : Invocation Method Ending HookCall} (completed : Completed program invocation) :
    invocation.events = reportedWord program invocation ∧
      (invocation.events = balancedWord program invocation ↔
        invocation.Everywhere fun _ ending _ => ending ≠ .exception) := by
  have reported : invocation.events = reportedWord program invocation :=
    Invocation.events_eq_word (completed.mono fun method ending trace runs =>
      runs.choose_spec.2.bracketed runs.choose_spec.1)
  refine ⟨reported, ?_⟩
  have part (method : Method) (ending : Ending) : (program method).closing ending <+: [(program method).exitCall] := by
    rw [Instrumented.closing]
    split
    · exact List.nil_prefix
    · exact List.prefix_rfl
  rw [reported, reportedWord, balancedWord, Invocation.word_eq_iff part]
  simp only [closing_eq_iff]

end Words

section Witness

/-- A body that calls another method and returns, with its probes. -/
def callerNodes : List Instr :=
  [⟨m_IL + 3, CEE_LDC_I4, 7⟩, ⟨m_IL + 4, CEE_CALL, 0x06000001⟩, ⟨m_IL + 1, CEE_CALL, 0x06000003⟩,
    ⟨m_IL + 2, CEE_NOP, 0⟩,
    ⟨m_IL + 6, CEE_LDC_I4, 7⟩, ⟨m_IL + 7, CEE_CALL, 0x06000002⟩, ⟨m_IL + 5, CEE_RET, 0⟩]

private theorem caller : ∃ method : Instrumented Ecma335.platform, method.imported.instrs = [m_IL + 1, m_IL + 2] ∧
    method.probed.listing = callerNodes ∧ method.onEnterHook = 0x06000001 ∧ method.onExitHook = 0x06000002 ∧
      method.token = 7 := by
  obtain ⟨result, run⟩ := calls_injected 1 (by decide) (by decide)
  obtain ⟨method, body, enter, exit, token, -⟩ := Instrumented.of_run run (by decide) (by decide)
  have accepted := method.accepted
  have added := method.added
  rw [body] at accepted
  rw [enter, exit, token] at added
  have imported := Import_listing callInstrs_valid rfl accepted
  have injected := injected_of_added imported added
  refine ⟨method, ?_, ?_, enter, exit, token⟩
  · rw [imported.holds.instrs_eq]
    decide
  · rw [injected.holds.listing_eq]
    decide

/-- What the method calls may invoke others, and throw or return. -/
private theorem caller_runs {Inner : Type} : ∃ method : Instrumented Ecma335.platform, ∃ first,
    (flowGraph Ecma335.platform method.probed.listing).start first ∧
      @Instrumented.Runs _ method Inner first [] [.inl method.enterCall] .exception ∧
      ∀ inner : Inner, method.Runs first [] [.inl method.enterCall, .inr inner, .inl method.exitCall] .ret := by
  obtain ⟨method, instrs, listing, enter, exit, token⟩ := caller
  have step {node next : Instr} (member : node ∈ callerNodes)
      (falls : fallThrough Ecma335.platform callerNodes node = some next) :
      (flowGraph Ecma335.platform method.probed.listing).step node next := by
    rw [listing]
    exact step_iff.mpr ⟨member, .inl falls⟩
  have hook {node : Instr} (opcode : node.opcode = CEE_CALL) (fresh : node.ptr ∉ [m_IL + 1, m_IL + 2]) :
      method.CallsHook node := ⟨opcode, instrs ▸ fresh⟩
  have plain {node : Instr} (ret : node.opcode ≠ CEE_RET) (constant : node.opcode ≠ CEE_LDC_I4)
      (own : node.ptr ∈ [m_IL + 1, m_IL + 2]) : method.Plain node :=
    ⟨ret, constant, fun calls => calls.2 (instrs ▸ own)⟩
  have enters {trace : List (HookCall ⊕ Inner)} {ending : Ending}
      (rest : method.Runs ⟨m_IL + 1, CEE_CALL, 0x06000003⟩ [] trace ending) :
      method.Runs ⟨m_IL + 3, CEE_LDC_I4, 7⟩ [] (.inl method.enterCall :: trace) ending := by
    rw [Instrumented.enterCall, enter, token]
    exact .load rfl (step (by decide) rfl) (.hook (hook rfl (by decide)) (step (by decide) rfl) rest)
  have called : method.Plain ⟨m_IL + 1, CEE_CALL, 0x06000003⟩ := plain (by decide) (by decide) (by decide)
  refine ⟨method, ⟨m_IL + 3, CEE_LDC_I4, 7⟩, ?_, enters (.throws called []), fun inner => enters ?_⟩
  · rw [listing]
    rfl
  · have exits : @Instrumented.Runs _ method Inner ⟨m_IL + 6, CEE_LDC_I4, 7⟩ [] [.inl method.exitCall] .ret := by
      rw [Instrumented.exitCall, exit, token]
      exact .load rfl (step (by decide) rfl) (.hook (hook rfl (by decide)) (step (by decide) rfl) (.ret rfl))
    have returns : method.Runs ⟨m_IL + 2, CEE_NOP, 0⟩ [] _ .ret :=
      .goesOn (plain (by decide) (by decide) (by decide)) [] (.inl (step (by decide) rfl)) exits
    exact .goesOn called [inner] (.inl (step (by decide) rfl)) returns

/-- What is thrown in the inner invocation is caught in between; the outer one returns. -/
theorem events_reported_caught :
    ∃ method : Instrumented Ecma335.platform, ∃ invocation : Invocation Unit Ending HookCall,
    Completed (fun _ => method) invocation ∧
      invocation.events = [method.enterCall, method.enterCall, method.exitCall] ∧
      invocation.events = reportedWord (fun _ => method) invocation ∧
      (invocation.events = balancedWord (fun _ => method) invocation ↔
        invocation.Everywhere fun _ ending _ => ending ≠ .exception) := by
  obtain ⟨method, first, start, throws, returns⟩ := caller_runs
  have inner : Completed (fun _ => method) (.invoked () .exception [.inl method.enterCall]) :=
    .invoked ⟨first, start, throws⟩ (by simp)
  have outer : Completed (fun _ => method) (.invoked () .ret
      [.inl method.enterCall, .inr (.invoked () .exception [.inl method.enterCall]), .inl method.exitCall]) := by
    refine .invoked ⟨first, start, returns _⟩ fun invocation member => ?_
    obtain rfl : invocation = _ := by simpa using member
    exact inner
  exact ⟨method, _, outer, rfl, events_reported outer⟩

/-- An invocation that is left by what it calls throwing reports its enter alone. -/
theorem thrown_unbalanced : ¬ ∀ (method : Instrumented Ecma335.platform) (invocation : Invocation Unit Ending HookCall),
    Completed (fun _ => method) invocation → invocation.events = balancedWord (fun _ => method) invocation := by
  intro balanced
  obtain ⟨method, first, start, throws, -⟩ := caller_runs
  have same := balanced method (.invoked () .exception [.inl method.enterCall])
    (.invoked ⟨first, start, throws⟩ (by simp))
  exact absurd (congrArg List.length same) (show 1 ≠ 2 by decide)

end Witness

end ClrProfiling
