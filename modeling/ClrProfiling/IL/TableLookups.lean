import ClrProfiling.IL.Ecma335
import ClrProfiling.IL.Injection

/-! The accesses to the two opcode tables, in the order a run of `InjectEnterExitHooks` makes
them, and which of them stay inside their table. -/

namespace ClrProfiling

open LinkedRing Word ILRewriter

inductive Lookup where
  | k_rgnStackPushes (opcode : Nat)
  | s_OpCodeFlags (opcode : Nat)
deriving DecidableEq, Repr

/-- `k_rgnStackPushes` has an entry for each opcode of opcode.def, `s_OpCodeFlags` two more. -/
def Lookup.InRange (defs : OpcodeDef) : Lookup → Prop
  | .k_rgnStackPushes opcode => opcode < defs.CEE_COUNT
  | .s_OpCodeFlags opcode => opcode < defs.CEE_COUNT + 2

instance (defs : OpcodeDef) (lookup : Lookup) : Decidable (lookup.InRange defs) := by
  cases lookup <;> exact inferInstanceAs (Decidable (_ < _))

section Lookups

variable (platform : Platform)

/-- InsertBefore adjusts the stack for the node of every target. -/
def switchArgLookups (pIL : List UInt8) (codeSize : Nat) : (nTargets : Nat) → (offset : Nat) → List Lookup
  | 0, _ => []
  | nTargets + 1, offset =>
    if offset + 4 > codeSize then []
    else
      match fetch pIL offset 4 with
      | .error _ => []
      | .ok _ => .k_rgnStackPushes platform.CEE_SWITCH_ARG :: switchArgLookups pIL codeSize nTargets (offset + 4)

/-- One turn of the decode loop: the flags of the opcode, then the node's own adjustment. -/
def importInstrLookups (pIL : List UInt8) (codeSize startOffset : Nat) : List Lookup :=
  match readOpcode platform pIL codeSize startOffset with
  | .error _ => []
  | .ok (opcode, offset) =>
    .s_OpCodeFlags opcode ::
      if wrap32 (offset + operandWidth platform opcode) > codeSize then []
      else
        .k_rgnStackPushes opcode ::
          if platform.s_OpCodeFlags opcode ≠ 0x20 then []
          else if offset + 4 > codeSize then []
          else
            match fetch pIL offset 4 with
            | .error _ => []
            | .ok nTargets => switchArgLookups platform pIL codeSize nTargets (offset + 4)

def importLoopLookups (pIL : List UInt8) : (fuel : Nat) → ILRewriter → (fBranch : Bool) → (offset : Nat) → List Lookup
  | 0, _, _, _ => []
  | fuel + 1, s, fBranch, offset =>
    if offset < s.m_CodeSize then
      importInstrLookups platform pIL s.m_CodeSize offset ++
        match s.ImportInstr platform pIL fBranch offset with
        | .error _ => []
        | .ok (s, fBranch, offset) => importLoopLookups pIL fuel s fBranch offset
    else []

/-- The lookups of a loop over the instructions, up to its end or the node it fails at. -/
def forInstrsLookups {Loop : Type} (rewriter : Loop → ILRewriter) (step : Loop → Ptr → Except Failure Loop)
    (lookups : Loop → Ptr → List Lookup) (loop : Loop) : List Lookup :=
  walkNotes (fun loop => (rewriter loop).links.next) m_IL (fun loop pInstr => (step loop pInstr).map (·, pInstr))
    lookups (rewriter loop).brk loop ((rewriter loop).links.next m_IL)

def importILLookups (s : ILRewriter) (pIL : List UInt8) : List Lookup :=
  importLoopLookups platform pIL s.m_CodeSize s.ImportStart false 0 ++
    match s.ImportStart.ImportLoop platform pIL s.m_CodeSize false 0 with
    | .ok (s, true) =>
      forInstrsLookups id (ResolveInstr platform) (fun s pInstr => [.s_OpCodeFlags (s.m_opcode pInstr)]) s
    | _ => []

def addProbeLookups : (hookArg : Option UInt64) → List Lookup
  | none => [.k_rgnStackPushes CEE_CALL]
  | some _ => [.k_rgnStackPushes CEE_LDC_I4, .k_rgnStackPushes CEE_CALL]

def exitProbeLookups (hookArg : Option UInt64) (loop : ILRewriter × Bool) (pInstr : Ptr) : List Lookup :=
  if loop.1.m_opcode pInstr = CEE_RET then .k_rgnStackPushes CEE_RET :: addProbeLookups hookArg else []

def addProbesLookups (s : ILRewriter) (hooks : Hooks) : List Lookup :=
  let entered :=
    if hooks.onEnterHook ≠ mdTokenNil then s.AddEnterProbe platform hooks.onEnterHook hooks.hookArg else s
  (if hooks.onEnterHook ≠ mdTokenNil then addProbeLookups hooks.hookArg else []) ++
    if hooks.onExitHook ≠ mdTokenNil then
      walkNotes (fun (loop : ILRewriter × Bool) => loop.1.links.next) m_IL
        (ExitProbeAt platform hooks.onExitHook hooks.hookArg) (exitProbeLookups hooks.hookArg)
        entered.brk (entered, false) (entered.links.next m_IL)
    else []

/-- The second pass treats a `switch` and its targets before it looks at flags. -/
def patchInstrLookups (loop : Patching) (pInstr : Ptr) : List Lookup :=
  let opcode := loop.rewriter.m_opcode pInstr
  if opcode = CEE_SWITCH ∨ opcode = platform.CEE_SWITCH_ARG then [] else [.s_OpCodeFlags opcode]

def againLookups : (fuel : Nat) → ILRewriter → Buffer → List Lookup
  | 0, _, _ => []
  | fuel + 1, s, buffer =>
    forInstrsLookups Emission.rewriter (EmitInstr platform)
        (fun loop pInstr => [.s_OpCodeFlags (loop.rewriter.m_opcode pInstr)])
        { rewriter := s, buffer, offset := 0, fBranch := false } ++
      match s.EmitPass platform buffer with
      | .error _ => []
      | .ok pass =>
        if pass.fBranch then
          forInstrsLookups Patching.rewriter (PatchInstr platform) (patchInstrLookups platform)
              { rewriter := pass.rewriter, buffer := pass.buffer, switchBase := 0, fTryAgain := false } ++
            match PatchPass platform pass with
            | .error _ => []
            | .ok patched =>
              if patched.fTryAgain then againLookups fuel patched.rewriter patched.buffer else []
        else []

/-- Every lookup of a run, whether it succeeds or not. -/
def injectLookups (body : MethodBody) (hooks : Hooks) : List Lookup :=
  importILLookups platform (ImportHeader body) body.Code ++
    match Import platform body with
    | .error _ => []
    | .ok s =>
      addProbesLookups platform s hooks ++
        match s.AddProbes platform hooks with
        | .error _ => []
        | .ok s => againLookups platform s.brk s (s.outputBuffer platform)

end Lookups

section Flags

variable {platform : Platform}

/-- Every node but the sentinel has an entry in the table of flags. -/
def ILRewriter.InTable (platform : Platform) (s : ILRewriter) : Prop :=
  ∀ p, p ≠ m_IL → s.m_opcode p < platform.CEE_COUNT + 2

private theorem oneByte_inTable (platform : Platform) (small : opcode < 0x100) : opcode < platform.CEE_COUNT + 2 := by
  have onePage := platform.onePage
  omega

theorem ILRewriter.InTable.update {s s' : ILRewriter} (inTable : s.InTable platform) (p : Ptr)
    (bound : opcode < platform.CEE_COUNT + 2)
    (same : s'.m_opcode = Function.update s.m_opcode p opcode) : s'.InTable platform := by
  intro other apart
  rw [same, Function.update_apply]
  split
  · exact bound
  · exact inTable other apart

theorem ILRewriter.InTable.of_eq {s s' : ILRewriter} (inTable : s.InTable platform) (same : s'.m_opcode = s.m_opcode) :
    s'.InTable platform := by
  intro other apart
  rw [same]
  exact inTable other apart

theorem ILRewriter.InTable.flag {s : ILRewriter} (inTable : s.InTable platform) (apart : p ≠ m_IL) :
    (Lookup.s_OpCodeFlags (s.m_opcode p)).InRange platform.toOpcodeDef := inTable p apart

/-- A loop over the instructions keeps what each turn keeps, and so do its lookups. -/
private theorem forInstrsLookups_inRange {Loop : Type} {rewriter : Loop → ILRewriter}
    {step : Loop → Ptr → Except Failure Loop} {lookups : Loop → Ptr → List Lookup} {loop : Loop}
    (keeps : ∀ loop pInstr loop', (rewriter loop).InTable platform → step loop pInstr = .ok loop' →
      (rewriter loop').InTable platform)
    (noted : ∀ loop pInstr, pInstr ≠ m_IL → (rewriter loop).InTable platform →
      ∀ lookup ∈ lookups loop pInstr, lookup.InRange platform.toOpcodeDef)
    (start : (rewriter loop).InTable platform) :
    (∀ lookup ∈ forInstrsLookups rewriter step lookups loop, lookup.InRange platform.toOpcodeDef) ∧
      ∀ loop', forInstrs rewriter step loop = .ok loop' → (rewriter loop').InTable platform := by
  have turn : ∀ loop pInstr (result : Loop × Ptr), pInstr ≠ m_IL → (rewriter loop).InTable platform →
      (step loop pInstr).map (·, pInstr) = .ok result → (rewriter result.1).InTable platform := by
    intro loop pInstr result _ inTable run
    cases done : step loop pInstr with
    | error failure => simp [done, Except.map] at run
    | ok loop' =>
      rw [done] at run
      cases run
      exact keeps loop pInstr loop' inTable done
  refine ⟨walkNotes_forall (fun loop => (rewriter loop).InTable platform) turn noted start, ?_⟩
  intro loop' run
  exact walk_invariant (fun loop => (rewriter loop).InTable platform) turn start run

private theorem ResolveInstr_inTable {s s' : ILRewriter} (inTable : s.InTable platform)
    (run : s.ResolveInstr platform pInstr = .ok s') : s'.InTable platform := by
  unfold ResolveInstr at run
  split at run <;> cases run
  · exact inTable.of_eq rfl
  · exact inTable

private theorem resolve_inTable {s : ILRewriter} (inTable : s.InTable platform) :
    (∀ lookup ∈ forInstrsLookups id (ResolveInstr platform) (fun s pInstr => [.s_OpCodeFlags (s.m_opcode pInstr)]) s,
        lookup.InRange platform.toOpcodeDef) ∧
      ∀ s', forInstrs id (ResolveInstr platform) s = .ok s' → s'.InTable platform :=
  forInstrsLookups_inRange (fun _ _ _ => ResolveInstr_inTable)
    (by simpa using fun s pInstr apart inTable => InTable.flag inTable apart) inTable

private theorem EmitInstr_inTable {loop loop' : Emission} (inTable : loop.rewriter.InTable platform)
    (run : EmitInstr platform loop pInstr = .ok loop') : loop'.rewriter.InTable platform := by
  obtain ⟨⟨buffer, offset⟩, -, rest⟩ := Outcome.bind_eq_ok_iff.mp run
  obtain ⟨⟨buffer, offset, fBranch⟩, -, rest⟩ := Outcome.bind_eq_ok_iff.mp rest
  cases rest
  exact inTable.of_eq rfl

private theorem widened_inTable (short : platform.s_OpCodeFlags opcode = 0x11) :
    widened opcode < platform.CEE_COUNT + 2 :=
  Nat.lt_add_right 2 (widened_importable short).1.1

private theorem PatchInstr_inTable {loop loop' : Patching} (inTable : loop.rewriter.InTable platform)
    (run : PatchInstr platform loop pInstr = .ok loop') : loop'.rewriter.InTable platform := by
  unfold PatchInstr at run
  dsimp only at run
  split at run
  · cases run
    exact inTable
  · split at run
    · obtain ⟨target, -, rest⟩ := Outcome.bind_eq_ok_iff.mp run
      obtain ⟨buffer, -, rest⟩ := Outcome.bind_eq_ok_iff.mp rest
      cases rest
      exact inTable
    · split at run
      · obtain ⟨target, -, rest⟩ := Outcome.bind_eq_ok_iff.mp run
        split at rest
        · rename_i short
          split at rest
          · obtain ⟨slot, -, rest⟩ := Outcome.bind_eq_ok_iff.mp rest
            obtain ⟨buffer, -, rest⟩ := Outcome.bind_eq_ok_iff.mp rest
            cases rest
            exact inTable
          · cases rest
            exact inTable.update pInstr (widened_inTable short) rfl
        · obtain ⟨slot, -, rest⟩ := Outcome.bind_eq_ok_iff.mp rest
          obtain ⟨buffer, -, rest⟩ := Outcome.bind_eq_ok_iff.mp rest
          cases rest
          exact inTable
        · cases rest
          exact inTable
      · cases run
        exact inTable

private theorem EmitPass_inTable {s : ILRewriter} (inTable : s.InTable platform) (buffer : Buffer) :
    (∀ lookup ∈ forInstrsLookups Emission.rewriter (EmitInstr platform)
        (fun loop pInstr => [.s_OpCodeFlags (loop.rewriter.m_opcode pInstr)])
        { rewriter := s, buffer, offset := 0, fBranch := false }, lookup.InRange platform.toOpcodeDef) ∧
      ∀ pass, s.EmitPass platform buffer = .ok pass → pass.rewriter.InTable platform := by
  obtain ⟨inRange, behind⟩ := @forInstrsLookups_inRange platform _ Emission.rewriter (EmitInstr platform)
    (fun loop pInstr => [.s_OpCodeFlags (loop.rewriter.m_opcode pInstr)])
    { rewriter := s, buffer, offset := 0, fBranch := false } (fun _ _ _ => EmitInstr_inTable)
    (by simpa using fun loop pInstr apart inTable => ILRewriter.InTable.flag inTable apart) inTable
  refine ⟨inRange, fun pass run => ?_⟩
  obtain ⟨loop, walked, done⟩ := Outcome.bind_eq_ok_iff.mp run
  cases done
  exact (behind loop walked).of_eq rfl

private theorem PatchPass_inTable {pass : Emission} (inTable : pass.rewriter.InTable platform) :
    (∀ lookup ∈ forInstrsLookups Patching.rewriter (PatchInstr platform) (patchInstrLookups platform)
        { rewriter := pass.rewriter, buffer := pass.buffer, switchBase := 0, fTryAgain := false },
        lookup.InRange platform.toOpcodeDef) ∧
      ∀ patched, PatchPass platform pass = .ok patched → patched.rewriter.InTable platform := by
  refine forInstrsLookups_inRange (fun _ _ _ => PatchInstr_inTable) (fun loop pInstr apart inTable lookup member => ?_)
    inTable
  unfold patchInstrLookups at member
  dsimp only at member
  split at member
  · simp at member
  · obtain rfl := List.mem_singleton.mp member
    exact inTable.flag apart

private theorem againLookups_inRange {fuel : Nat} {s : ILRewriter} {buffer : Buffer} (inTable : s.InTable platform) :
    ∀ lookup ∈ againLookups platform fuel s buffer, lookup.InRange platform.toOpcodeDef := by
  induction fuel generalizing s buffer with
  | zero => simp [againLookups]
  | succ fuel ih =>
    obtain ⟨first, emitted⟩ := EmitPass_inTable inTable buffer
    rw [againLookups]
    refine List.forall_mem_append.mpr ⟨first, ?_⟩
    cases emit : s.EmitPass platform buffer with
    | error failure => simp
    | ok pass =>
      obtain ⟨second, behind⟩ := PatchPass_inTable (emitted pass emit)
      dsimp only
      split
      · refine List.forall_mem_append.mpr ⟨second, ?_⟩
        cases patch : PatchPass platform pass with
        | error failure => simp
        | ok patched =>
          dsimp only
          split
          · exact ih (behind patched patch)
          · simp
      · simp

private theorem loadNode_inTable {s : ILRewriter} (inTable : s.InTable platform)
    (bound : opcode < platform.CEE_COUNT + 2) (operand : Nat) :
    (s.loadNode platform opcode operand).InTable platform := by
  apply inTable.update s.brk bound
  rw [loadNode_eq]
  rfl

private theorem loadTargets_inTable {s : ILRewriter} (inTable : s.InTable platform) (base : Nat) (targets : List Nat) :
    (loadTargets platform base targets s).InTable platform := by
  induction targets generalizing s with
  | nil => exact inTable
  | cons target rest ih => exact ih (loadNode_inTable inTable (Nat.lt_succ_self _) _)

private theorem loadAll_inTable {s : ILRewriter} {instrs : List RawInstr} (inTable : s.InTable platform) (offset : Nat)
    (valid : ∀ instr ∈ instrs, instr.Valid platform) : (s.loadAll platform offset instrs).InTable platform := by
  induction instrs generalizing s offset with
  | nil => exact inTable
  | cons instr rest ih =>
    obtain ⟨first, others⟩ := List.forall_mem_cons.mp valid
    refine ih ?_ _ others
    have marked : (s.mark offset).InTable platform := inTable.of_eq rfl
    cases instr with
    | plain opcode operand => exact loadNode_inTable marked (Nat.lt_add_right 2 first.1.1) _
    | switch targets =>
      exact loadTargets_inTable (loadNode_inTable marked (oneByte_inTable platform (by decide)) _) _ _

private theorem ImportStart_inTable (platform : Platform) (body : MethodBody) :
    (ImportHeader body).ImportStart.InTable platform := by
  intro p apart
  have opcode : (ImportHeader body).ImportStart.m_opcode p = 0 := Function.update_of_ne apart _ _
  rw [opcode]
  exact oneByte_inTable platform (by decide)

private theorem insertNew_inTable {s : ILRewriter} (inTable : s.InTable platform) (small : opcode < 0x100)
    (operand : Nat) (pWhere : Ptr) :
    (((s.NewILInstr.2.setOpcode s.brk opcode).setOperand s.brk operand).InsertBefore platform pWhere
      s.brk).InTable platform := by
  apply inTable.update s.brk (oneByte_inTable platform small)
  rw [freshNode_eq]
  rfl

private theorem AddProbe_inTable {s : ILRewriter} (inTable : s.InTable platform) (hookMethod : UInt32)
    (hookArg : Option UInt64) (pWhere : Ptr) : (s.AddProbe platform hookMethod hookArg pWhere).InTable platform := by
  cases hookArg with
  | none => exact insertNew_inTable inTable (by decide) _ _
  | some argument => exact insertNew_inTable (insertNew_inTable inTable (by decide) _ _) (by decide) _ _

private theorem ExitProbeAt_inTable {loop : ILRewriter × Bool} (inTable : loop.1.InTable platform)
    (run : ExitProbeAt platform onExitHook hookArg loop pInstr = .ok result) : result.1.1.InTable platform := by
  obtain ⟨s, added⟩ := loop
  rw [ExitProbeAt] at run
  split at run
  · cases run
    refine AddProbe_inTable ?_ _ _ _
    have nop : (s.setOpcode pInstr CEE_NOP).InTable platform :=
      inTable.update pInstr (oneByte_inTable platform (by decide)) rfl
    exact nop.update s.brk (oneByte_inTable platform (show CEE_RET < 0x100 by decide)) (Function.update_idem ..)
  · cases run
    exact inTable

private theorem AddProbes_inTable {s s' : ILRewriter} (inTable : s.InTable platform)
    (run : s.AddProbes platform hooks = .ok s') : s'.InTable platform := by
  have entered : (if hooks.onEnterHook ≠ mdTokenNil then s.AddEnterProbe platform hooks.onEnterHook hooks.hookArg
      else s).InTable platform := by
    split
    · exact AddProbe_inTable inTable _ _ _
    · exact inTable
  rw [AddProbes] at run
  split at run
  · obtain ⟨⟨exited, added⟩, walked, rest⟩ := Outcome.bind_eq_ok_iff.mp run
    have kept := walk_invariant (fun loop : ILRewriter × Bool => loop.1.InTable platform)
      (fun _ _ _ _ => ExitProbeAt_inTable) entered walked
    dsimp only at rest
    split at rest <;> cases rest
    exact kept
  · cases run
    exact entered

end Flags

section Pushes

variable {platform : Platform}

private theorem addProbeLookups_inRange (platform : Platform) (hookArg : Option UInt64) :
    ∀ lookup ∈ addProbeLookups hookArg, lookup.InRange platform.toOpcodeDef := by
  have call := (platform.importable_oneByte (show CEE_CALL < 0xF8 by decide)).1
  have ldc := (platform.importable_oneByte (show CEE_LDC_I4 < 0xF8 by decide)).1
  cases hookArg with
  | none => simpa [addProbeLookups, Lookup.InRange] using call
  | some argument => simpa [addProbeLookups, Lookup.InRange] using ⟨ldc, call⟩

/-- The probes look up opcodes of opcode.def alone. -/
theorem addProbesLookups_inRange (platform : Platform) (s : ILRewriter) (hooks : Hooks) :
    ∀ lookup ∈ addProbesLookups platform s hooks, lookup.InRange platform.toOpcodeDef := by
  have probe := addProbeLookups_inRange platform hooks.hookArg
  refine List.forall_mem_append.mpr ⟨?_, ?_⟩
  · split
    · exact probe
    · simp
  · split
    · refine walkNotes_forall (fun _ => True) (fun _ _ _ _ _ _ => trivial) (fun loop pInstr _ _ => ?_) trivial
      unfold exitProbeLookups
      split
      · exact List.forall_mem_cons.mpr ⟨(platform.importable_oneByte (show CEE_RET < 0xF8 by decide)).1, probe⟩
      · simp
    · simp

/-- A `switch` up to its first target. -/
def switchHead (count target : Nat) : List UInt8 :=
  opcodeBytes CEE_SWITCH ++ (LittleEndian.encode 4 count ++ LittleEndian.encode 4 target)

private theorem switchArgLookups_inRange {pIL : List UInt8} (nTargets offset : Nat) :
    (∀ lookup ∈ switchArgLookups platform pIL pIL.length nTargets offset, lookup.InRange platform.toOpcodeDef) ↔
      (0 < nTargets → pIL.length < offset + 4) := by
  cases nTargets with
  | zero => simp [switchArgLookups]
  | succ nTargets =>
    rw [switchArgLookups]
    by_cases short : offset + 4 > pIL.length
    · simp [short]
    · obtain ⟨target, read⟩ := fetch_of_le (Nat.le_of_not_lt short)
      rw [if_neg short, read]
      simp only [List.mem_cons, forall_eq_or_imp]
      constructor
      · intro inRange
        exact absurd inRange.1 platform.switchArg_not_lt
      · intro beyond
        exact absurd (beyond (Nat.succ_pos _)) short

private theorem stands_switchHead {pIL : List UInt8} :
    Stands pIL offset (switchHead count target) ↔
      Stands pIL offset (opcodeBytes CEE_SWITCH) ∧ Stands pIL (offset + 1) (LittleEndian.encode 4 count) ∧
        Stands pIL (offset + 5) (LittleEndian.encode 4 target) := by
  have length : (opcodeBytes CEE_SWITCH).length = 1 := by decide
  rw [switchHead, stands_append, stands_append, length, LittleEndian.length_encode]

/-- One turn of the decode loop stays inside the tables unless it takes in a target. -/
private theorem importInstrLookups_inRange {pIL : List UInt8} (small : pIL.length + 12 < 2 ^ 32) (offset : Nat) :
    (∀ lookup ∈ importInstrLookups platform pIL pIL.length offset, lookup.InRange platform.toOpcodeDef) ↔
      ∀ count target, 0 < count → count < 2 ^ 32 → target < 2 ^ 32 → ¬Stands pIL offset (switchHead count target) := by
  have length : (opcodeBytes CEE_SWITCH).length = 1 := by decide
  have isSwitch {count target : Nat} (stands : Stands pIL offset (switchHead count target)) :
      readOpcode platform pIL pIL.length offset = .ok (CEE_SWITCH, offset + 1) :=
    readOpcode_eq_ok_iff.mpr ⟨platform.importable_oneByte (by decide), (stands_switchHead.mp stands).1, by rw [length]⟩
  unfold importInstrLookups
  cases read : readOpcode platform pIL pIL.length offset with
  | error failure =>
    refine ⟨fun _ count target _ _ _ stands => ?_, fun _ => by simp⟩
    rw [isSwitch stands] at read
    cases read
  | ok decoded =>
    obtain ⟨opcode, behind⟩ := decoded
    obtain ⟨importable, -, -⟩ := readOpcode_eq_ok_iff.mp read
    have flag : (Lookup.s_OpCodeFlags opcode).InRange platform.toOpcodeDef := Nat.lt_add_right 2 importable.1
    have push : (Lookup.k_rgnStackPushes opcode).InRange platform.toOpcodeDef := importable.1
    have switchWidth : operandWidth platform CEE_SWITCH = 0 := by
      rw [operandWidth, platform.flags_CEE_SWITCH]
      rfl
    dsimp only
    rw [List.forall_mem_cons]
    by_cases opcode_eq : opcode = CEE_SWITCH
    · subst opcode_eq
      have behind_eq : behind = offset + 1 := by
        obtain ⟨-, -, same⟩ := readOpcode_eq_ok_iff.mp read
        rw [same, length]
      subst behind_eq
      have bound := (readOpcode_eq_ok_iff.mp read).2.1.bound
      rw [length] at bound
      rw [switchWidth, if_neg (by rw [wrap32_of_lt (by omega)]; omega), List.forall_mem_cons,
        if_neg (not_not.mpr platform.flags_CEE_SWITCH)]
      by_cases noCount : offset + 1 + 4 > pIL.length
      · rw [if_pos noCount]
        refine ⟨fun _ count target _ _ _ stands => ?_, fun _ => ⟨flag, push, by simp⟩⟩
        have inside := (stands_switchHead.mp stands).2.1.bound
        rw [LittleEndian.length_encode] at inside
        omega
      · obtain ⟨nTargets, readCount⟩ := fetch_of_le (Nat.le_of_not_lt noCount)
        obtain ⟨countSmall, countStands⟩ := fetch_eq_ok_iff.mp readCount
        rw [if_neg noCount, readCount]
        dsimp only
        rw [switchArgLookups_inRange]
        constructor
        · rintro ⟨-, -, beyond⟩ count target positive _ _ stands
          obtain ⟨-, standsCount, standsTarget⟩ := stands_switchHead.mp stands
          have same : nTargets = count := by
            have read' := fetch_eq_ok_iff.mpr ⟨by omega, standsCount⟩
            rw [readCount] at read'
            exact Except.ok.inj read'
          have inside := standsTarget.bound
          rw [LittleEndian.length_encode] at inside
          have outside := beyond (same ▸ positive)
          omega
        · intro none
          refine ⟨flag, push, fun positive => ?_⟩
          by_contra inside
          obtain ⟨target, readTarget⟩ := fetch_of_le (Nat.le_of_not_lt inside)
          obtain ⟨targetSmall, targetStands⟩ := fetch_eq_ok_iff.mp readTarget
          have opcodeStands := (readOpcode_eq_ok_iff.mp read).2.1
          exact none nTargets target positive (by omega) (by omega)
            (stands_switchHead.mpr ⟨opcodeStands, countStands, targetStands⟩)
    · have plain : platform.s_OpCodeFlags opcode ≠ 0x20 := fun flags =>
        opcode_eq ((platform.flags_switch importable.1).mp flags)
      rw [if_pos plain]
      constructor
      · intro _ count target _ _ _ stands
        rw [isSwitch stands] at read
        cases read
        exact opcode_eq rfl
      · intro _
        refine ⟨flag, ?_⟩
        split
        · simp
        · simpa using push

/-- The decode loop stays inside the tables unless it gets to a `switch` with a target. -/
private theorem importLoopLookups_inRange {pIL : List UInt8} {s : ILRewriter} (size : s.m_CodeSize = pIL.length)
    (small : pIL.length + 12 < 2 ^ 32) (enough : pIL.length ≤ offset + fuel) :
    (∀ lookup ∈ importLoopLookups platform pIL fuel s fBranch offset, lookup.InRange platform.toOpcodeDef) ↔
      ∀ (instrs : List RawInstr) (count target : Nat), (∀ instr ∈ instrs, instr.Valid platform) → 0 < count →
        count < 2 ^ 32 → target < 2 ^ 32 →
        ¬Stands pIL offset (listingBytes platform instrs ++ switchHead count target) := by
  induction fuel generalizing s fBranch offset with
  | zero =>
    refine ⟨fun _ instrs count target _ _ _ _ stands => ?_, fun _ => by simp [importLoopLookups]⟩
    have bound := stands.bound
    have head : 0 < (switchHead count target).length := by simp [switchHead]
    rw [List.length_append] at bound
    omega
  | succ fuel ih =>
    rw [importLoopLookups, size]
    by_cases inside : offset < pIL.length
    · rw [if_pos inside, List.forall_mem_append, importInstrLookups_inRange small]
      cases turn : s.ImportInstr platform pIL fBranch offset with
      | error failure =>
        constructor
        · rintro ⟨here, -⟩ instrs count target valid positive countSmall targetSmall stands
          cases instrs with
          | nil => exact here count target positive countSmall targetSmall stands
          | cons instr rest =>
            rw [listingBytes_cons, List.append_assoc] at stands
            have accepted : s.ImportInstr platform pIL fBranch offset =
                .ok (s.loadInstr platform offset instr, fBranch || instr.hasTargets platform,
                  offset + instr.size platform) :=
              (ImportInstr_eq_ok_iff size (by omega)).mpr
                ⟨instr, valid instr (by simp), (stands_append.mp stands).1, rfl⟩
            rw [turn] at accepted
            cases accepted
        · intro none
          refine ⟨fun count target => none [] count target (by simp), by simp⟩
      | ok next =>
        obtain ⟨instr, validInstr, standsInstr, rfl⟩ := (ImportInstr_eq_ok_iff size (by omega)).mp turn
        have positive := instr.size_pos platform
        dsimp only
        rw [ih (by simpa using size) (by omega)]
        constructor
        · rintro ⟨here, later⟩ instrs count target valid many countSmall targetSmall stands
          cases instrs with
          | nil => exact here count target many countSmall targetSmall stands
          | cons other rest =>
            rw [listingBytes_cons, List.append_assoc] at stands
            have accepted : s.ImportInstr platform pIL fBranch offset =
                .ok (s.loadInstr platform offset other, fBranch || other.hasTargets platform,
                  offset + other.size platform) :=
              (ImportInstr_eq_ok_iff size (by omega)).mpr
                ⟨other, valid other (by simp), (stands_append.mp stands).1, rfl⟩
            rw [turn] at accepted
            have same : offset + instr.size platform = offset + other.size platform :=
              congrArg (fun result => result.2.2) (Except.ok.inj accepted)
            refine later rest count target (fun _ member => valid _ (List.mem_cons_of_mem _ member)) many countSmall
              targetSmall ?_
            rw [same]
            exact (stands_append.mp stands).2
        · intro none
          refine ⟨fun count target => none [] count target (by simp), ?_⟩
          intro rest count target valid many countSmall targetSmall stands
          refine none (instr :: rest) count target (List.forall_mem_cons.mpr ⟨validInstr, valid⟩) many countSmall
            targetSmall ?_
          rw [listingBytes_cons, List.append_assoc]
          exact stands_append.mpr ⟨standsInstr, stands⟩
    · rw [if_neg inside]
      refine ⟨fun _ instrs count target _ _ _ _ stands => ?_, fun _ => by simp⟩
      have bound := stands.bound
      have head : 0 < (switchHead count target).length := by simp [switchHead]
      rw [List.length_append] at bound
      omega

end Pushes

section Whole

variable {platform : Platform} {body : MethodBody} {hooks : Hooks}

/-- Behind complete instructions no `switch` stands whose first target is there. -/
def TargetFree (platform : Platform) (code : List UInt8) : Prop :=
  ∀ (instrs : List RawInstr) (count target : Nat) (after : List UInt8), (∀ instr ∈ instrs, instr.Valid platform) →
    count < 2 ^ 32 → target < 2 ^ 32 →
    code = listingBytes platform instrs ++ switchHead count target ++ after → count = 0

private theorem targetFree_iff (code : List UInt8) :
    TargetFree platform code ↔ ∀ (instrs : List RawInstr) (count target : Nat),
      (∀ instr ∈ instrs, instr.Valid platform) → 0 < count → count < 2 ^ 32 → target < 2 ^ 32 →
        ¬Stands code 0 (listingBytes platform instrs ++ switchHead count target) := by
  constructor
  · rintro free instrs count target valid positive countSmall targetSmall ⟨before, after, whole, empty⟩
    obtain rfl := List.length_eq_zero_iff.mp empty
    have none := free instrs count target after valid countSmall targetSmall (by simpa using whole)
    omega
  · intro none instrs count target after valid countSmall targetSmall whole
    by_contra some
    exact none instrs count target valid (by omega) countSmall targetSmall ⟨[], after, by simpa using whole, rfl⟩

/-- ImportIL stays inside the tables unless it gets to a `switch` with a target. -/
theorem importILLookups_inRange (platform : Platform) (body : MethodBody) :
    (∀ lookup ∈ importILLookups platform (ImportHeader body) body.Code, lookup.InRange platform.toOpcodeDef) ↔
      TargetFree platform body.Code := by
  have inImage := body.inImage
  have size : (ImportHeader body).ImportStart.m_CodeSize = body.Code.length := rfl
  have enough : body.Code.length ≤ 0 + (ImportHeader body).m_CodeSize := Nat.le_add_left ..
  have loopLookups : (∀ lookup ∈ importLoopLookups platform body.Code (ImportHeader body).m_CodeSize
      (ImportHeader body).ImportStart false 0, lookup.InRange platform.toOpcodeDef) ↔ _ :=
    importLoopLookups_inRange size inImage enough
  rw [importILLookups, List.forall_mem_append, targetFree_iff, ← loopLookups]
  refine ⟨And.left, fun free => ⟨free, ?_⟩⟩
  cases loop : (ImportHeader body).ImportStart.ImportLoop platform body.Code (ImportHeader body).m_CodeSize false 0 with
  | error failure => simp
  | ok loaded =>
    obtain ⟨s, fBranch⟩ := loaded
    cases fBranch with
    | false => simp
    | true =>
      obtain ⟨instrs, valid, -, same⟩ := (ImportLoop_eq_ok_iff size (by omega) (Nat.zero_le _)
        enough).mp loop
      obtain rfl : s = _ := congrArg Prod.fst same
      have inTable := loadAll_inTable (ImportStart_inTable platform body) 0 valid
      exact (resolve_inTable inTable).1

private theorem Import_inTable {s : ILRewriter} (run : Import platform body = .ok s) : s.InTable platform := by
  have inImage := body.inImage
  have size : (ImportHeader body).ImportStart.m_CodeSize = body.Code.length := rfl
  have enough : body.Code.length ≤ 0 + (ImportHeader body).m_CodeSize := Nat.le_add_left ..
  obtain ⟨imported, accepted, clauses⟩ := Outcome.bind_eq_ok_iff.mp run
  obtain ⟨⟨loaded, fBranch⟩, loop, rest⟩ := Outcome.bind_eq_ok_iff.mp accepted
  obtain ⟨instrs, valid, -, same⟩ := (ImportLoop_eq_ok_iff size (by omega) (Nat.zero_le _) enough).mp loop
  obtain rfl : loaded = _ := congrArg Prod.fst same
  have inTable := loadAll_inTable (ImportStart_inTable platform body) 0 valid
  have resolved : imported.InTable platform := by
    dsimp only at rest
    split at rest
    · exact (resolve_inTable inTable).2 imported rest
    · cases rest
      exact inTable
  obtain ⟨m_pEH, -, done⟩ := Outcome.bind_eq_ok_iff.mp clauses
  cases done
  exact resolved.of_eq rfl

/-- The opcodes of imported nodes are opcodes of opcode.def where no `switch` has a target. -/
private theorem imported_opcodes {instrs : List RawInstr} (valid : ∀ instr ∈ instrs, instr.Valid platform)
    (free : TargetFree platform (listingBytes platform instrs)) :
    ∀ node ∈ importedNodes platform instrs, node.opcode < platform.CEE_COUNT := by
  intro node member
  have listed : node.opcode ∈ instrs.flatMap (RawInstr.nodeOpcodes platform) := by
    rw [← importedNodes_opcodes]
    exact List.mem_map_of_mem member
  obtain ⟨instr, inside, opcode⟩ := List.mem_flatMap.mp listed
  cases instr with
  | plain opcode operand =>
    obtain rfl := List.mem_singleton.mp ‹_›
    exact (valid _ inside).1.1
  | switch targets =>
    cases targets with
    | nil =>
      obtain same := List.mem_singleton.mp opcode
      rw [same]
      exact (platform.importable_oneByte (show CEE_SWITCH < 0xF8 by decide)).1
    | cons target rest =>
      obtain ⟨before, after, rfl⟩ := List.append_of_mem inside
      obtain ⟨countSmall, targetsSmall⟩ := valid _ inside
      have count := free before (target :: rest).length target
        (rest.flatMap (LittleEndian.encode 4) ++ listingBytes platform after)
        (fun other member => valid other (List.mem_append_left _ member)) countSmall
        (targetsSmall target (by simp)) (by
          simp [listingBytes, RawInstr.bytes, RawInstr.opcode, RawInstr.operandBytes, switchHead])
      simp at count

/-- All accesses stay inside their tables, and the stack is counted in entries of opcode.def. -/
structure TablesSafe (platform : Platform) (body : MethodBody) (hooks : Hooks) : Prop where
  inRange : ∀ lookup ∈ injectLookups platform body hooks, lookup.InRange platform.toOpcodeDef
  counted : ∀ s s', Import platform body = .ok s → s.AddProbes platform hooks = .ok s' →
    ∃ opcodes : List Nat, (∀ opcode ∈ opcodes, opcode < platform.CEE_COUNT) ∧ s'.m_maxStack ≡
      body.MaxStack + (opcodes.map fun opcode => ((platform.push opcode).map StackPush.slots).sum).sum [MOD 2 ^ 32]

private theorem probeOpcodes_lt (platform : Platform) (hooks : Hooks) (nodes : List Instr) :
    ∀ opcode ∈ probeOpcodes hooks nodes, opcode < platform.CEE_COUNT := by
  have probe (brk : Ptr) (hook : UInt32) : ∀ opcode ∈ (probeNodes brk hook hooks.hookArg).map Instr.opcode,
      opcode < platform.CEE_COUNT := by
    refine List.forall_mem_map.mpr fun node member => ?_
    rcases probeNodes_opcode member with opcode | opcode <;> rw [opcode]
    · exact (platform.importable_oneByte (by decide)).1
    · exact (platform.importable_oneByte (by decide)).1
  refine List.forall_mem_append.mpr ⟨?_, ?_⟩
  · rw [enterNodes]
    split
    · exact probe _ _
    · simp
  · split
    · intro opcode member
      obtain ⟨node, -, listed⟩ := List.mem_flatMap.mp member
      split at listed
      · rcases List.mem_cons.mp listed with rfl | added
        · exact (platform.importable_oneByte (by decide)).1
        · exact probe _ _ opcode added
      · simp at listed
    · simp

private theorem pushes_of_lt {opcodes : List Nat} (below : ∀ opcode ∈ opcodes, opcode < platform.CEE_COUNT) :
    (opcodes.map platform.k_rgnStackPushes).sum =
      (opcodes.map fun opcode => ((platform.push opcode).map StackPush.slots).sum).sum :=
  congrArg List.sum (List.map_congr_left fun opcode member => if_pos (below opcode member))

/-- The tables are read in range exactly where no `switch` with a target is decoded: InsertBefore
looks the internal opcode of its targets up in a table that ends in front of it. -/
theorem tableLookups_inRange_iff (platform : Platform) (body : MethodBody) (hooks : Hooks) :
    TablesSafe platform body hooks ↔ TargetFree platform body.Code := by
  constructor
  · intro safe
    exact (importILLookups_inRange platform body).mp fun lookup member =>
      safe.inRange lookup (List.mem_append_left _ member)
  · intro free
    refine ⟨List.forall_mem_append.mpr ⟨(importILLookups_inRange platform body).mpr free, ?_⟩, ?_⟩
    · cases accepted : Import platform body with
      | error failure => simp
      | ok s =>
        refine List.forall_mem_append.mpr ⟨addProbesLookups_inRange platform s hooks, ?_⟩
        cases added : s.AddProbes platform hooks with
        | error failure => simp
        | ok s' =>
          exact againLookups_inRange (AddProbes_inTable (Import_inTable accepted) added)
    · intro s s' accepted added
      obtain ⟨instrs, imported⟩ := Import_eq_ok accepted
      have injected := injected_of_added imported added
      have below := imported_opcodes imported.valid (imported.code ▸ free)
      refine ⟨(importedNodes platform instrs).map Instr.opcode ++ probeOpcodes hooks (importedNodes platform instrs),
        List.forall_mem_append.mpr ⟨List.forall_mem_map.mpr below, probeOpcodes_lt platform hooks _⟩, ?_⟩
      have counted := injected.maxStack
      have imports := pushes_of_lt (List.forall_mem_map.mpr below)
      rw [List.map_map] at imports
      rw [List.map_append, List.sum_append, ← Nat.add_assoc, ← imports,
        ← pushes_of_lt (probeOpcodes_lt platform hooks (importedNodes platform instrs))]
      exact counted

/-- `ldc.i4.0; switch (ret); ret`. -/
def oneTarget : MethodBody where
  Flags := 0
  MaxStack := 8
  LocalVarSigTok := 0
  Code := [0x16, 0x45, 1, 0, 0, 0, 0, 0, 0, 0, 0x2A]
  EH := []
  maxStack_lt := smallStack_lt
  inImage := by decide
  clauses_le := noClauses_le

theorem oneTarget_strays : ¬∀ lookup ∈ injectLookups Ecma335.platform oneTarget ⟨0x06000001, 0x06000002, some 7⟩,
    lookup.InRange Ecma335.platform.toOpcodeDef := by
  intro inRange
  have free := (importILLookups_inRange Ecma335.platform oneTarget).mp fun lookup member =>
    inRange lookup (List.mem_append_left _ member)
  have valid : ∀ instr ∈ [RawInstr.plain 0x16 0], instr.Valid Ecma335.platform := by
    simp only [List.mem_singleton, forall_eq, RawInstr.Valid]
    decide
  have count := free [.plain 0x16 0] 1 0 [0x2A] valid (by decide) (by decide) (by decide)
  exact absurd count (by decide)

end Whole

end ClrProfiling
