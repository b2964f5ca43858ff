import ClrProfiling.Host.HookBridge
import ClrProfiling.Host.MethodBodies

/-! What becomes of the methods of a process: over all runs of the callbacks, the body of a method
is the one it had with layers of hooks around it. -/

namespace ClrProfiling

open Effect Host Machine

/-- A runtime with a body for every method that has one, and a module whose metadata was opened last.
Bodies change where they are set and nowhere else; a method that is defined has none yet. -/
structure KeepsBodies (clr : Clr) (bodies : clr.State → ModuleID → mdMethodDef → Option MethodBody)
    (opened : clr.State → ModuleID) : Prop where
  gets : ∀ moduleId methodDef s, ¬FAILED (clr.answer (.GetILFunctionBody moduleId methodDef) s).1.1 →
    bodies s moduleId methodDef = some (clr.answer (.GetILFunctionBody moduleId methodDef) s).1.2
  sets : ∀ moduleId methodDef pBody s, ¬FAILED (clr.answer (.SetILFunctionBody moduleId methodDef pBody) s).1 →
    bodies (clr.answer (.SetILFunctionBody moduleId methodDef pBody) s).2 =
      Function.update (bodies s) moduleId (Function.update (bodies s moduleId) methodDef (decodeBody pBody))
  refuses : ∀ moduleId methodDef pBody s, FAILED (clr.answer (.SetILFunctionBody moduleId methodDef pBody) s).1 →
    bodies (clr.answer (.SetILFunctionBody moduleId methodDef pBody) s).2 = bodies s
  setsOpened : ∀ moduleId methodDef pBody s,
    opened (clr.answer (.SetILFunctionBody moduleId methodDef pBody) s).2 = opened s
  opens : ∀ moduleId s, opened (clr.answer (.GetModuleMetaData moduleId) s).2 =
    if FAILED (clr.answer (.GetModuleMetaData moduleId) s).1 then opened s else moduleId
  opensBodies : ∀ moduleId s, bodies (clr.answer (.GetModuleMetaData moduleId) s).2 = bodies s
  keeps : ∀ {Answer : Type} (request : Call Answer) s, request.quiet = true →
    bodies (clr.answer request s).2 = bodies s ∧ opened (clr.answer request s).2 = opened s
  fresh : ∀ typeDef name flags signature implFlags s,
    ¬FAILED (clr.answer (.DefineMethod typeDef name flags signature implFlags) s).1.1 →
      bodies s (opened s) (clr.answer (.DefineMethod typeDef name flags signature implFlags) s).1.2 = none

/-- The hooks that some calls give to a method. -/
def hooksOf (methodDef : mdMethodDef) (calls : List HostCall) : List Hooks :=
  calls.filterMap fun
    | .InjectEnterExitHooks other onEnterHook onExitHook hookArg =>
      if other = methodDef then some ⟨onEnterHook, onExitHook, hookArg⟩ else none
    | .RegisterMethod _ => none

@[simp] theorem hooksOf_register (methodDef : mdMethodDef) (method : MethodMetadata) (calls : List HostCall) :
    hooksOf methodDef (.RegisterMethod method :: calls) = hooksOf methodDef calls := rfl

@[simp] theorem hooksOf_inject (methodDef other onEnterHook onExitHook : mdMethodDef) (hookArg : Option UInt64)
    (calls : List HostCall) :
    hooksOf methodDef (.InjectEnterExitHooks other onEnterHook onExitHook hookArg :: calls) =
      if other = methodDef then ⟨onEnterHook, onExitHook, hookArg⟩ :: hooksOf methodDef calls
      else hooksOf methodDef calls := by
  by_cases same : other = methodDef
  · simp [hooksOf, same]
  · simp [hooksOf, same]

/-- A body with layers of hooks around it, and the header it had. -/
structure Rewritten (platform : Platform) (body : MethodBody) (layers : List Hooks) (last : MethodBody) : Prop where
  layered : Layered platform body layers last
  localVarSig : last.LocalVarSigTok = body.LocalVarSigTok
  initLocals : last.Flags &&& CorILMethod_InitLocals ≠ 0 ↔ body.Flags &&& CorILMethod_InitLocals ≠ 0

section Bodies

variable {platform : Platform} {body middle last : MethodBody} {layers others : List Hooks}

theorem Rewritten.refl (platform : Platform) (body : MethodBody) : Rewritten platform body [] body :=
  ⟨.nil, rfl, Iff.rfl⟩

theorem Rewritten.trans (first : Rewritten platform body layers middle)
    (second : Rewritten platform middle others last) :
    Rewritten platform body (layers ++ others) last :=
  ⟨first.layered.trans second.layered, second.localVarSig.trans first.localVarSig,
    second.initLocals.trans first.initLocals⟩

theorem Rewritten.sound (rewritten : Rewritten platform body layers last) (sound : SoundBody platform body) :
    SoundBody platform last := by
  obtain ⟨token, instrs, instrumentable⟩ := sound
  exact ⟨rewritten.localVarSig ▸ token, rewritten.layered.instrumentable instrumentable⟩

end Bodies

section Evolution

variable {clr : Clr} {bodies : clr.State → ModuleID → mdMethodDef → Option MethodBody} {opened : clr.State → ModuleID}
  {moduleId : ModuleID} {s s' : HostState clr}

/-- Every body of the runtime can be instrumented. -/
def AllSound (clr : Clr) (bodies : clr.State → ModuleID → mdMethodDef → Option MethodBody)
    (runtime : clr.State) : Prop :=
  ∀ moduleId methodDef body, bodies runtime moduleId methodDef = some body → SoundBody clr.platform body

/-- The host behind some calls for a module: the hooks of the calls are around its bodies. -/
structure Evolves (bodies : clr.State → ModuleID → mdMethodDef → Option MethodBody) (moduleId : ModuleID)
    (s s' : HostState clr) : Prop where
  sound : AllSound clr bodies s.runtime → AllSound clr bodies s'.runtime
  others : ∀ other, other ≠ moduleId → bodies s'.runtime other = bodies s.runtime other
  calls : ∃ added, s'.calls = s.calls ++ added ∧ (AllSound clr bodies s.runtime → ∀ methodDef body,
    bodies s.runtime moduleId methodDef = some body → ∃ layers last,
      bodies s'.runtime moduleId methodDef = some last ∧ Rewritten clr.platform body layers last ∧
        layers.Sublist (hooksOf methodDef added))

theorem hooksOf_append (methodDef : mdMethodDef) (calls others : List HostCall) :
    hooksOf methodDef (calls ++ others) = hooksOf methodDef calls ++ hooksOf methodDef others :=
  List.filterMap_append

theorem Evolves.of_same (added : List HostCall) (calls : s'.calls = s.calls ++ added)
    (same : bodies s'.runtime = bodies s.runtime) : Evolves bodies moduleId s s' where
  sound sound := fun moduleId methodDef body found => sound moduleId methodDef body (same ▸ found)
  others other _ := congrFun same other
  calls := by
    refine ⟨added, calls, fun _ methodDef body found => ?_⟩
    exact ⟨[], body, same ▸ found, .refl .., List.nil_sublist _⟩

/-- The body of one method has changed. -/
theorem Evolves.of_update {methodDef : mdMethodDef} {value : Option MethodBody} (added : List HostCall)
    (calls : s'.calls = s.calls ++ added)
    (changed : bodies s'.runtime = Function.update (bodies s.runtime) moduleId
      (Function.update (bodies s.runtime moduleId) methodDef value))
    (delivered : AllSound clr bodies s.runtime → ∃ last, value = some last ∧ SoundBody clr.platform last ∧
      ∀ body, bodies s.runtime moduleId methodDef = some body →
        ∃ layers, Rewritten clr.platform body layers last ∧ layers.Sublist (hooksOf methodDef added)) :
    Evolves bodies moduleId s s' where
  sound := by
    intro all module method body found
    obtain ⟨last, rfl, sound, -⟩ := delivered all
    rw [changed] at found
    by_cases here : module = moduleId
    · subst here
      rw [Function.update_self] at found
      by_cases this : method = methodDef
      · subst this
        rw [Function.update_self] at found
        exact Option.some.inj found ▸ sound
      · rw [Function.update_of_ne this] at found
        exact all _ _ _ found
    · rw [Function.update_of_ne here] at found
      exact all _ _ _ found
  others other elsewhere := by rw [changed, Function.update_of_ne elsewhere]
  calls := by
    refine ⟨added, calls, fun all method body found => ?_⟩
    rw [changed, Function.update_self]
    by_cases this : method = methodDef
    · subst this
      obtain ⟨last, rfl, -, layers⟩ := delivered all
      obtain ⟨layers, rewritten, part⟩ := layers body found
      exact ⟨layers, last, Function.update_self .., rewritten, part⟩
    · rw [Function.update_of_ne this]
      exact ⟨[], body, found, .refl .., List.nil_sublist _⟩

instance : Std.Refl (@Evolves clr bodies moduleId) :=
  ⟨fun _ => .of_same [] (List.append_nil _).symm rfl⟩

instance : IsTrans (HostState clr) (Evolves bodies moduleId) where
  trans s s' s'' first second := by
    obtain ⟨added, calls, early⟩ := first.calls
    obtain ⟨added', calls', late⟩ := second.calls
    refine ⟨fun sound => second.sound (first.sound sound), fun other elsewhere => ?_, added ++ added', ?_, ?_⟩
    · exact (second.others other elsewhere).trans (first.others other elsewhere)
    · rw [calls', calls, List.append_assoc]
    · intro sound methodDef body found
      obtain ⟨layers, middle, between, rewritten, part⟩ := early sound methodDef body found
      obtain ⟨layers', last, behind, rewritten', part'⟩ := late (first.sound sound) methodDef middle between
      refine ⟨layers ++ layers', last, behind, rewritten.trans rewritten', ?_⟩
      rw [hooksOf_append]
      exact part.append part'

theorem call_bind {Answer Result : Type} (request : Call Answer) (rest : Answer → Host clr Result)
    (s : HostState clr) : (call request >>= rest) s =
      rest (clr.answer request s.runtime).1 { s with runtime := (clr.answer request s.runtime).2 } := rfl

/-- A body that is written is set, or nothing has changed. -/
private theorem setBody_changes (keeps : KeepsBodies clr bodies opened) (moduleId : ModuleID) (methodDef : mdMethodDef)
    (rewriter : ILRewriter) (code : List UInt8) (s : HostState clr) :
    let s' := (SetBody moduleId methodDef rewriter code s).2
    opened s'.runtime = opened s.runtime ∧ (bodies s'.runtime = bodies s.runtime ∨
      ∃ pBody, rewriter.WrittenBody clr.platform code = .ok pBody ∧
        bodies s'.runtime = Function.update (bodies s.runtime) moduleId
          (Function.update (bodies s.runtime moduleId) methodDef (decodeBody (pBody.read 0 pBody.size)))) := by
  obtain ⟨same, module⟩ := keeps.keeps (.GetILFunctionBodyAllocator moduleId) s.runtime rfl
  rw [SetBody, call_bind]
  by_cases noAllocator : FAILED (clr.answer (.GetILFunctionBodyAllocator moduleId) s.runtime).1
  · rw [if_pos noAllocator]
    exact ⟨module, .inl same⟩
  rw [if_neg noAllocator, call_bind]
  generalize clr.answer (.GetILFunctionBodyAllocator moduleId) s.runtime = allocator at same module ⊢
  obtain ⟨same', module'⟩ := keeps.keeps (.Alloc (totalBodySize code.length rewriter.m_pEH.length)) allocator.2 rfl
  dsimp only
  generalize clr.answer (.Alloc (totalBodySize code.length rewriter.m_pEH.length)) allocator.2 = memory
    at same' module' ⊢
  rw [same] at same'
  rw [module] at module'
  by_cases allocated : memory.1 = true
  · rw [if_pos allocated]
    rcases written : rewriter.WrittenBody clr.platform code with failure | pBody
    · dsimp only
      rw [fail_snd]
      exact ⟨module', .inl same'⟩
    · dsimp only
      rw [call_bind]
      refine ⟨(keeps.setsOpened ..).trans module', ?_⟩
      by_cases refused :
        FAILED (clr.answer (.SetILFunctionBody moduleId methodDef (pBody.read 0 pBody.size)) memory.2).1
      · exact .inl ((keeps.refuses _ _ _ _ refused).trans same')
      · refine .inr ⟨pBody, rfl, (keeps.sets _ _ _ _ refused).trans ?_⟩
        rw [same']
  · rw [if_neg allocated]
    exact ⟨module', .inl same'⟩

theorem injectEnterExitHooks_of_ok {moduleId : ModuleID} {methodDef onEnterHook onExitHook : mdMethodDef}
    {hookArg : Option UInt64} {rewriter : ILRewriter} {code : List UInt8}
    (present : ¬FAILED (clr.answer (.GetILFunctionBody moduleId methodDef) s.runtime).1.1)
    (run : Rewrite clr.platform (clr.answer (.GetILFunctionBody moduleId methodDef) s.runtime).1.2
      ⟨onEnterHook, onExitHook, hookArg⟩ = .ok (rewriter, code)) :
    Host.InjectEnterExitHooks moduleId methodDef onEnterHook onExitHook hookArg s =
      SetBody moduleId methodDef rewriter code
      { s with
        runtime := (clr.answer (.GetILFunctionBody moduleId methodDef) s.runtime).2
        calls := s.calls ++ [.InjectEnterExitHooks methodDef onEnterHook onExitHook hookArg] } := by
  simp only [Host.InjectEnterExitHooks, note_bind, call_bind, if_neg present, run]

/-- Hooks that are injected are a layer around the body, or nothing has changed. -/
private theorem injectEnterExitHooks_changes (keeps : KeepsBodies clr bodies opened) (moduleId : ModuleID)
    (methodDef onEnterHook onExitHook : mdMethodDef) (hookArg : Option UInt64) (s : HostState clr) :
    let s' := (Host.InjectEnterExitHooks moduleId methodDef onEnterHook onExitHook hookArg s).2
    opened s'.runtime = opened s.runtime ∧ (bodies s'.runtime = bodies s.runtime ∨ ∃ body result pBody,
      bodies s.runtime moduleId methodDef = some body ∧
      ClrProfiling.InjectEnterExitHooks clr.platform body ⟨onEnterHook, onExitHook, hookArg⟩ = .ok result ∧
      WriteBody clr.platform result.body = .ok pBody ∧
      bodies s'.runtime = Function.update (bodies s.runtime) moduleId
        (Function.update (bodies s.runtime moduleId) methodDef (decodeBody (pBody.read 0 pBody.size)))) := by
  obtain ⟨same, module⟩ := keeps.keeps (.GetILFunctionBody moduleId methodDef) s.runtime rfl
  have gets := keeps.gets moduleId methodDef s.runtime
  intro s'
  by_cases missing : FAILED (clr.answer (.GetILFunctionBody moduleId methodDef) s.runtime).1.1
  · have behind : s'.runtime = (clr.answer (.GetILFunctionBody moduleId methodDef) s.runtime).2 := by
      simp only [s', Host.InjectEnterExitHooks, note_bind, call_bind, if_pos missing]
      rfl
    rw [behind]
    exact ⟨module, .inl same⟩
  rcases run : Rewrite clr.platform (clr.answer (.GetILFunctionBody moduleId methodDef) s.runtime).1.2
      ⟨onEnterHook, onExitHook, hookArg⟩ with failure | ⟨rewriter, code⟩
  · have behind : s'.runtime = (clr.answer (.GetILFunctionBody moduleId methodDef) s.runtime).2 := by
      simp only [s', Host.InjectEnterExitHooks, note_bind, call_bind, if_neg missing, run, fail_snd]
    rw [behind]
    exact ⟨module, .inl same⟩
  · have behind := congrArg Prod.snd (injectEnterExitHooks_of_ok missing run)
    obtain ⟨module', changed⟩ := setBody_changes keeps moduleId methodDef rewriter code
      { s with
        runtime := (clr.answer (.GetILFunctionBody moduleId methodDef) s.runtime).2
        calls := s.calls ++ [.InjectEnterExitHooks methodDef onEnterHook onExitHook hookArg] }
    rw [← behind] at module' changed
    refine ⟨module'.trans module, changed.imp (fun unchanged => unchanged.trans same) ?_⟩
    rintro ⟨pBody, finished, set⟩
    obtain ⟨result, injected, written⟩ := injected_written_iff.mpr ⟨rewriter, code, run, finished⟩
    exact ⟨_, result, pBody, gets missing, injected, written, by rw [set, same]⟩

section Inside

private theorem evolves_quiet (keeps : KeepsBodies clr bodies opened) (moduleId : ModuleID) {Answer : Type}
    (request : Call Answer) (quiet : request.quiet = true) : Moves (Evolves bodies moduleId) (call request) :=
  ⟨fun s => .of_same [] (List.append_nil _).symm (keeps.keeps request s.runtime quiet).1⟩

theorem evolves_asks (keeps : KeepsBodies clr bodies opened) (moduleId : ModuleID) :
    Asks clr moduleId (Evolves bodies moduleId) where
  call request quiet := evolves_quiet keeps moduleId request quiet
  opens := ⟨fun s => .of_same [] (List.append_nil _).symm (keeps.opensBodies moduleId s.runtime)⟩

/-- The module that is open stays open. -/
def StaysOpen (opened : clr.State → ModuleID) (moduleId : ModuleID) (s s' : HostState clr) : Prop :=
  opened s.runtime = moduleId → opened s'.runtime = moduleId

instance : Std.Refl (@StaysOpen clr opened moduleId) := ⟨fun _ => id⟩

instance : IsTrans (HostState clr) (StaysOpen opened moduleId) := ⟨fun _ _ _ first second open_ => second (first open_)⟩

theorem staysOpen_asks (keeps : KeepsBodies clr bodies opened) (moduleId : ModuleID) :
    Asks clr moduleId (StaysOpen opened moduleId) where
  call request quiet := ⟨fun s same => (keeps.keeps request s.runtime quiet).2.trans same⟩
  opens := by
    refine ⟨fun s same => (keeps.opens moduleId s.runtime).trans ?_⟩
    split
    · exact same
    · rfl

/-- Behind the factory the module is open that it has made an instrumenter for. -/
theorem create_opened (keeps : KeepsBodies clr bodies opened) {instrumenter : Instrumenter}
    (run : ModuleInstrumenterFactory.Create moduleId s = (.ok instrumenter, s')) : opened s'.runtime = moduleId := by
  have asks := staysOpen_asks keeps moduleId
  obtain ⟨info, _, -, rest⟩ := bind_eq_ok_iff.mp run
  obtain ⟨assemblyName, _, -, rest⟩ := bind_eq_ok_iff.mp rest
  obtain ⟨made, behind, new, rest⟩ := bind_eq_ok_iff.mp rest
  cases rest
  obtain ⟨_, s₁, -, new⟩ := bind_eq_ok_iff.mp new
  obtain ⟨_, s₂, metadata, new⟩ := bind_eq_ok_iff.mp new
  have open' : opened s₂.runtime = moduleId := by
    obtain ⟨hr, _, asked, tested⟩ := bind_eq_ok_iff.mp metadata
    cases asked
    obtain ⟨_, _, tested, last⟩ := bind_eq_ok_iff.mp tested
    obtain ⟨success, rfl⟩ := comOp_ok tested
    cases last
    exact (keeps.opens moduleId s₁.runtime).trans (if_neg success)
  have rest := (asks.check (.QueryInterface .IID_IMetaDataAssemblyEmit) rfl).bind fun _ =>
    (asks.check (.QueryInterface .IID_IMetaDataImport2) rfl).bind fun _ => asks.readModuleInfo
  have still := rest.step s₂ open'
  rw [new] at still
  exact still

/-- A relation for as long as a module is open, which stays so. -/
def Inside (opened : clr.State → ModuleID) (moduleId : ModuleID) (related : HostState clr → HostState clr → Prop)
    (s s' : HostState clr) : Prop :=
  opened s.runtime = moduleId → opened s'.runtime = moduleId ∧ related s s'

variable {related : HostState clr → HostState clr → Prop}

instance [Std.Refl related] : Std.Refl (Inside opened moduleId related) := ⟨fun _ inside => ⟨inside, Std.Refl.refl _⟩⟩

instance [IsTrans (HostState clr) related] : IsTrans (HostState clr) (Inside opened moduleId related) where
  trans s s' s'' first second inside := by
    obtain ⟨still, early⟩ := first inside
    obtain ⟨stays, late⟩ := second still
    exact ⟨stays, IsTrans.trans _ _ _ early late⟩

theorem Asks.inside (asks : Asks clr moduleId related) (keeps : KeepsBodies clr bodies opened) :
    Asks clr moduleId (Inside opened moduleId related) where
  call request quiet := ⟨fun s inside =>
    ⟨((staysOpen_asks keeps moduleId).call request quiet).step s inside, (asks.call request quiet).step s⟩⟩
  opens := ⟨fun s inside => ⟨(staysOpen_asks keeps moduleId).opens.step s inside, asks.opens.step s⟩⟩

theorem Asks.callback [Std.Refl related] [IsTrans (HostState clr) related] (asks : Asks clr moduleId related)
    (keeps : KeepsBodies clr bodies opened) (steps : Steps clr moduleId (Inside opened moduleId related))
    (hrStatus : HRESULT) : Moves related (CorProfiler.ModuleLoadFinished moduleId hrStatus) :=
  asks.moduleLoadFinished hrStatus fun _ instrumenter s' run =>
    ((steps.instrument instrumenter (create_moduleId run)).step s' (create_opened keeps run)).2

theorem rewritten_of_injected {body : MethodBody} {hooks : Hooks} {result : ILRewriter.Exported} {pBody : Buffer}
    (sound : SoundBody clr.platform body)
    (run : ClrProfiling.InjectEnterExitHooks clr.platform body hooks = .ok result)
    (written : WriteBody clr.platform result.body = .ok pBody) :
    ∃ last, decodeBody (pBody.read 0 pBody.size) = some last ∧ Rewritten clr.platform body [hooks] last := by
  obtain ⟨token, instrs, instrumentable⟩ := sound
  obtain ⟨last, decoded, code, clauses, localVarSig, initLocals⟩ :=
    decodeBody_written instrumentable token run written
  exact ⟨last, decoded, .cons run code clauses .nil, localVarSig, initLocals⟩

/-- Hooks that are injected are one more layer, or none. -/
theorem inside_injected (keeps : KeepsBodies clr bodies opened)
    (methodDef onEnterHook onExitHook : mdMethodDef) (hookArg : Option UInt64) {before : List HostCall}
    {s s₁ : HostState clr} (runtime : s₁.runtime = s.runtime) (calls : s₁.calls = s.calls ++ before) :
    Inside opened moduleId (Evolves bodies moduleId) s
      (Host.InjectEnterExitHooks moduleId methodDef onEnterHook onExitHook hookArg s₁).2 := by
  intro inside
  obtain ⟨module, changes⟩ := injectEnterExitHooks_changes keeps moduleId methodDef onEnterHook onExitHook hookArg s₁
  obtain ⟨behind, silent⟩ := silent_injectEnterExitHooks moduleId methodDef onEnterHook onExitHook hookArg s₁
  have noted : (Host.InjectEnterExitHooks moduleId methodDef onEnterHook onExitHook hookArg s₁).2.calls =
      s.calls ++ (before ++ [.InjectEnterExitHooks methodDef onEnterHook onExitHook hookArg]) := by
    rw [silent, ← List.append_assoc, ← calls]
  rw [runtime] at module changes
  refine ⟨module.trans inside, ?_⟩
  rcases changes with same | ⟨body, result, pBody, present, run, written, changed⟩
  · exact .of_same _ noted same
  · refine .of_update _ noted changed fun all => ?_
    have sound := all _ _ _ present
    obtain ⟨last, decoded, rewritten⟩ := rewritten_of_injected sound run written
    refine ⟨last, decoded, rewritten.sound sound, fun other found => ⟨[⟨onEnterHook, onExitHook, hookArg⟩], ?_, ?_⟩⟩
    · rw [present] at found
      exact Option.some.inj found ▸ rewritten
    · rw [hooksOf_append]
      refine List.sublist_append_of_sublist_right ?_
      simp [hooksOf]

private theorem checked_bind {Value Result : Type} (request : Call (HRESULT × Value)) (rest : Value → Host clr Result)
    (s : HostState clr) : ((checked request >>= rest) s).2 =
      if FAILED (clr.answer request s.runtime).1.1 then { s with runtime := (clr.answer request s.runtime).2 }
      else (rest (clr.answer request s.runtime).1.2 { s with runtime := (clr.answer request s.runtime).2 }).2 := by
  rw [checked, Effect.bind_assoc, call_bind, Effect.bind_assoc, ComOp]
  split
  · rfl
  · rfl

private theorem setNewBody_bind (moduleId : ModuleID) (methodDef : mdMethodDef) (pBody : List UInt8) (value : Result)
    (s : HostState clr) : ((SetNewBody moduleId methodDef pBody >>= fun _ => pure value) s).2 =
      let memory := clr.answer (.Alloc pBody.length) s.runtime
      { s with
        runtime :=
          if memory.1 then (clr.answer (.SetILFunctionBody moduleId methodDef pBody) memory.2).2 else memory.2 } := by
  rw [SetNewBody, Effect.bind_assoc, call_bind]
  rcases clr.answer (.Alloc pBody.length) s.runtime with ⟨allocated, runtime⟩
  cases allocated with
  | false => rfl
  | true =>
    rw [if_pos rfl, check, Effect.bind_assoc, call_bind, Effect.bind_assoc, ComOp]
    split
    · rfl
    · rfl

/-- A method that is defined has a body that can be instrumented. -/
theorem inside_defined (keeps : KeepsBodies clr bodies opened) (opcodes : StubOpcodes clr.platform.toOpcodeDef)
    (typeDef : mdTypeDef) (name : WString) (flags : UInt32) (signature : List UInt8) (implFlags : UInt32)
    {pBody : List UInt8} (stub : Stub pBody) (s : HostState clr) :
    Inside opened moduleId (Evolves bodies moduleId) s
      (DefineWithBody moduleId typeDef name flags signature implFlags pBody s).2 := by
  intro inside
  obtain ⟨behind, silent⟩ := (silent_defineWithBody moduleId typeDef name flags signature implFlags pBody).step s
  have calls : (DefineWithBody moduleId typeDef name flags signature implFlags pBody s).2.calls = s.calls ++ [] := by
    rw [silent, List.append_nil]
  obtain ⟨same, module⟩ := keeps.keeps (.DefineMethod typeDef name flags signature implFlags) s.runtime rfl
  have fresh := keeps.fresh typeDef name flags signature implFlags s.runtime
  have run : (DefineWithBody moduleId typeDef name flags signature implFlags pBody s).2 = _ := checked_bind ..
  generalize clr.answer (.DefineMethod typeDef name flags signature implFlags) s.runtime = answer
    at same module fresh run
  by_cases refused : FAILED answer.1.1
  · rw [if_pos refused] at run
    rw [run] at calls ⊢
    exact ⟨module.trans inside, .of_same [] calls same⟩
  rw [if_neg refused, setNewBody_bind] at run
  have fresh := fresh refused
  rw [inside] at fresh
  have behind := congrArg HostState.runtime run
  obtain ⟨same', module'⟩ := keeps.keeps (.Alloc pBody.length) answer.2 rfl
  dsimp only at behind
  generalize clr.answer (.Alloc pBody.length) answer.2 = memory at behind same' module'
  rw [same] at same'
  rw [module, inside] at module'
  by_cases allocated : memory.1 = true
  swap
  · rw [if_neg allocated] at behind
    rw [behind]
    exact ⟨module', .of_same [] calls (by rw [behind, same'])⟩
  rw [if_pos allocated] at behind
  refine ⟨?_, ?_⟩
  · rw [behind, keeps.setsOpened, module']
  by_cases rejected : FAILED (clr.answer (.SetILFunctionBody moduleId answer.1.2 pBody) memory.2).1
  · exact .of_same [] calls (by rw [behind, keeps.refuses _ _ _ _ rejected, same'])
  · refine .of_update [] calls (by rw [behind, keeps.sets _ _ _ _ rejected, same']) fun _ => ?_
    obtain ⟨body, decoded, sound⟩ := stub.sound opcodes
    refine ⟨body, decoded, sound, fun other found => ?_⟩
    rw [fresh] at found
    cases found

theorem inside_steps (keeps : KeepsBodies clr bodies opened) (opcodes : StubOpcodes clr.platform.toOpcodeDef)
    (moduleId : ModuleID) : Steps clr moduleId (Inside opened moduleId (Evolves bodies moduleId)) where
  toAsks := (evolves_asks keeps moduleId).inside keeps
  defines _ _ _ _ _ _ stub := ⟨inside_defined keeps opcodes _ _ _ _ _ stub⟩
  hooks methodDef onEnterHook onExitHook :=
    ⟨fun _ => inside_injected keeps methodDef onEnterHook onExitHook none rfl (List.append_nil _).symm⟩
  profiles _ _ _ methodDef onEnterHook onExitHook :=
    ⟨fun _ => inside_injected keeps methodDef onEnterHook onExitHook _ rfl rfl⟩

end Inside

section Runs

theorem evolves_moduleLoadFinished (keeps : KeepsBodies clr bodies opened)
    (opcodes : StubOpcodes clr.platform.toOpcodeDef) (moduleId : ModuleID) (hrStatus : HRESULT) :
    Moves (Evolves bodies moduleId) (CorProfiler.ModuleLoadFinished moduleId hrStatus) :=
  (evolves_asks keeps moduleId).callback keeps (inside_steps keeps opcodes moduleId) hrStatus

/-- The hooks that the callbacks for a module give to one of its methods, each in its turn. -/
def hooksGiven (moduleId : ModuleID) (methodDef : mdMethodDef) : List (ModuleID × HRESULT) → HostState clr → List Hooks
  | [], _ => []
  | module :: rest, s =>
    let s' := (CorProfiler.ModuleLoadFinished module.1 module.2 s).2
    (if module.1 = moduleId then hooksOf methodDef (s'.calls.drop s.calls.length) else []) ++
      hooksGiven moduleId methodDef rest s'

private theorem layers_of_callback (keeps : KeepsBodies clr bodies opened)
    (opcodes : StubOpcodes clr.platform.toOpcodeDef) (sound : AllSound clr bodies s.runtime) {methodDef : mdMethodDef}
    {body : MethodBody} (found : bodies s.runtime moduleId methodDef = some body) (module : ModuleID × HRESULT) :
    let s' := (CorProfiler.ModuleLoadFinished module.1 module.2 s).2
    ∃ layers last, bodies s'.runtime moduleId methodDef = some last ∧ Rewritten clr.platform body layers last ∧
      layers.Sublist (if module.1 = moduleId then hooksOf methodDef (s'.calls.drop s.calls.length) else []) := by
  intro s'
  have evolves := (evolves_moduleLoadFinished keeps opcodes module.1 module.2).step s
  by_cases here : module.1 = moduleId
  · subst here
    obtain ⟨added, calls, layered⟩ := evolves.calls
    obtain ⟨layers, last, behind, rewritten, part⟩ := layered sound methodDef body found
    refine ⟨layers, last, behind, rewritten, ?_⟩
    rw [if_pos rfl, calls, List.drop_left]
    exact part
  · refine ⟨[], body, ?_, .refl .., List.nil_sublist _⟩
    rw [evolves.others moduleId (Ne.symm here), found]

private theorem layers_of_callbacks (keeps : KeepsBodies clr bodies opened)
    (opcodes : StubOpcodes clr.platform.toOpcodeDef) (modules : List (ModuleID × HRESULT)) {s : HostState clr}
    (sound : AllSound clr bodies s.runtime) {methodDef : mdMethodDef} {body : MethodBody}
    (found : bodies s.runtime moduleId methodDef = some body) :
    ∃ layers last, bodies (callbacks modules s).runtime moduleId methodDef = some last ∧
      Rewritten clr.platform body layers last ∧ layers.Sublist (hooksGiven moduleId methodDef modules s) := by
  induction modules generalizing s body with
  | nil => exact ⟨[], body, found, .refl .., List.nil_sublist _⟩
  | cons module rest ih =>
    obtain ⟨layers, middle, between, rewritten, part⟩ := layers_of_callback keeps opcodes sound found module
    have evolves := (evolves_moduleLoadFinished keeps opcodes module.1 module.2).step s
    obtain ⟨layers', last, behind, rewritten', part'⟩ := ih (evolves.sound sound) between
    exact ⟨layers ++ layers', last, behind, rewritten.trans rewritten', part.append part'⟩

private theorem sound_callbacks (keeps : KeepsBodies clr bodies opened)
    (opcodes : StubOpcodes clr.platform.toOpcodeDef) (modules : List (ModuleID × HRESULT)) {s : HostState clr}
    (sound : AllSound clr bodies s.runtime) : AllSound clr bodies (callbacks modules s).runtime := by
  induction modules generalizing s with
  | nil => exact sound
  | cons module rest ih => exact ih (((evolves_moduleLoadFinished keeps opcodes module.1 module.2).step s).sound sound)

/-- A process that is profiled runs its own code in every method: whatever modules are loaded in whatever
order, each body stays one that can be instrumented, and a method that had a body has it still, in as many
layers of hooks as the callbacks for its own module have put around it, one inside the other. -/
theorem bodies_layered (keeps : KeepsBodies clr bodies opened) (opcodes : StubOpcodes clr.platform.toOpcodeDef)
    (s : HostState clr) (sound : AllSound clr bodies s.runtime) (modules : List (ModuleID × HRESULT)) :
    AllSound clr bodies (callbacks modules s).runtime ∧
      ∀ moduleId methodDef body, bodies s.runtime moduleId methodDef = some body →
        ∃ layers last, bodies (callbacks modules s).runtime moduleId methodDef = some last ∧
          Rewritten clr.platform body layers last ∧ layers.Sublist (hooksGiven moduleId methodDef modules s) ∧
          ∀ (State Event : Type) (semantics : Semantics Instruction (List Protection) State Event)
            (push : Nat → State → State) (entered left : Hooks → Event),
            (∀ hooks ∈ layers, Hooked semantics hooks push (entered hooks) (left hooks)) →
              Brackets semantics (bodyProgram clr.platform body.Code body.EH)
                (bodyProgram clr.platform last.Code last.EH) returns
                (layers.reverse.flatMap fun hooks => eventOf hooks.onEnterHook (entered hooks))
                (layers.flatMap fun hooks => eventOf hooks.onExitHook (left hooks)) := by
  refine ⟨sound_callbacks keeps opcodes modules sound, fun moduleId methodDef body found => ?_⟩
  obtain ⟨layers, last, behind, rewritten, part⟩ := layers_of_callbacks keeps opcodes modules sound found
  obtain ⟨-, instrs, instrumentable⟩ := sound moduleId methodDef body found
  exact ⟨layers, last, behind, rewritten, part, fun _ _ _ _ _ _ hooked =>
    rewritten.layered.brackets instrumentable hooked⟩

end Runs

end Evolution

section Images

/-- A runtime with tables, in which the metadata of one module is open, and with bodies. -/
structure Image where
  tables : Tables
  module : ModuleID
  bodies : ModuleID → mdMethodDef → Option MethodBody

def Image.setBody (image : Image) (moduleId : ModuleID) (methodDef : mdMethodDef) (body : Option MethodBody) : Image :=
  let bodies := Function.update image.bodies moduleId (Function.update (image.bodies moduleId) methodDef body)
  { image with bodies }

/-- The runtime over the tables of an image that reads and sets its bodies. -/
def imageRuntime (assemblyName : WString) (tickCount : UInt32) : Clr where
  State := Image
  answer request image :=
    match request with
    | .GetModuleMetaData moduleId => (S_OK, { image with module := moduleId })
    | .GetILFunctionBody moduleId methodDef =>
      ((image.bodies moduleId methodDef).elim
        ((tableRuntime assemblyName tickCount).answer (.GetILFunctionBody moduleId methodDef) image.tables).1
        fun body => (S_OK, body), image)
    | .SetILFunctionBody moduleId methodDef pBody => (S_OK, image.setBody moduleId methodDef (decodeBody pBody))
    | .DefineMethod typeDef name flags signature implFlags =>
      let (answer, tables) :=
        (tableRuntime assemblyName tickCount).answer (.DefineMethod typeDef name flags signature implFlags) image.tables
      if image.bodies image.module answer.2 = none then (answer, { image with tables }) else ((E_OUTOFMEMORY, 0), image)
    | request =>
      let (answer, tables) := (tableRuntime assemblyName tickCount).answer request image.tables
      (answer, { image with tables })
  platform := Ecma335.platform
  CorSigCompressToken _ := [0x49]
  CorSigUncompressData data := (1, (data 0).toNat)

theorem imageRuntime_keepsBodies (assemblyName : WString) (tickCount : UInt32) :
    KeepsBodies (imageRuntime assemblyName tickCount) Image.bodies Image.module where
  gets moduleId methodDef image present := by
    dsimp only [imageRuntime] at present ⊢
    rcases found : image.bodies moduleId methodDef with _ | body
    · rw [found] at present
      exact absurd (show FAILED E_FAIL by decide) present
    · rfl
  sets _ _ _ _ _ := rfl
  refuses _ _ _ _ refused := absurd refused (show ¬FAILED S_OK by decide)
  setsOpened _ _ _ _ := rfl
  opens _ _ := rfl
  opensBodies _ _ := rfl
  keeps request image quiet := by
    cases request with
    | GetModuleMetaData => cases quiet
    | SetILFunctionBody => cases quiet
    | DefineMethod =>
      dsimp only [imageRuntime]
      split <;> exact ⟨rfl, rfl⟩
    | _ => exact ⟨rfl, rfl⟩
  fresh typeDef name flags signature implFlags image defined := by
    dsimp only [imageRuntime] at defined ⊢
    split
    · assumption
    · rename_i known
      rw [if_neg known] at defined
      exact absurd (show FAILED E_OUTOFMEMORY by decide) defined

end Images

section Witness

/-- The image of a program in front of its first callback. -/
def programImage : Image where
  tables := programTables
  module := 0
  bodies moduleId methodDef := if moduleId = 1 ∧ methodDef = 0x06000001 then some leftTry else none

def programHost : HostState (imageRuntime (wide "App") 0) :=
  CorProfiler.new programImage (some ⟨true, (wide "ProfilingTarget.").map fun char => UInt8.ofNat char.toNat, []⟩) 8

theorem programHost_body : programHost.runtime.bodies 1 0x06000001 = some leftTry := by
  change (if (1 : ModuleID) = 1 ∧ (0x06000001 : mdMethodDef) = 0x06000001 then some leftTry else none) = some leftTry
  exact if_pos ⟨rfl, rfl⟩

theorem programHost_sound : AllSound (imageRuntime (wide "App") 0) Image.bodies programHost.runtime := by
  intro moduleId methodDef body found
  change (if moduleId = 1 ∧ methodDef = 0x06000001 then some leftTry else none) = some body at found
  split at found
  · obtain rfl := Option.some.inj found
    exact ⟨by decide, leftTryInstrs, leftTry_valid, leftTry_code, leftTry_wellFormed⟩
  · cases found

theorem programHost_given :
    hooksGiven 1 0x06000001 [(1, S_OK)] programHost = [⟨0x06000004, 0x06000005, some 1⟩] := by
  decide +kernel

private theorem programHost_grown :
    ((callbacks [(1, S_OK)] programHost).runtime.bodies 1 0x06000001).map (fun body => body.Code.length) ≠
      some leftTry.Code.length := by
  decide +kernel

/-- The one method of the program runs between the hooks with its token. -/
theorem bodies_layered_program : ∃ last,
    (callbacks [(1, S_OK)] programHost).runtime.bodies 1 0x06000001 = some last ∧
      Layered Ecma335.platform leftTry [⟨0x06000004, 0x06000005, some 1⟩] last ∧
      Brackets stackSemantics (bodyProgram Ecma335.platform leftTry.Code leftTry.EH)
        (bodyProgram Ecma335.platform last.Code last.EH) returns [(0x06000004, 1)] [(0x06000005, 1)] := by
  have opcodes : StubOpcodes (imageRuntime (wide "App") 0).platform.toOpcodeDef :=
    ⟨by decide, by decide, by decide, by decide⟩
  obtain ⟨layers, last, behind, rewritten, part, nest⟩ := (bodies_layered (imageRuntime_keepsBodies (wide "App") 0)
    opcodes programHost programHost_sound [(1, S_OK)]).2 1 0x06000001 leftTry programHost_body
  have grown := programHost_grown
  rw [behind] at grown
  rw [programHost_given] at part
  rcases List.sublist_singleton.mp part with rfl | rfl
  · cases rewritten.layered
    exact absurd rfl grown
  · have nested := nest _ _ stackSemantics List.cons
      (fun hooks => (hooks.onEnterHook.toNat, (hooks.hookArg.getD 0).toNat % 2 ^ 32))
      (fun hooks => (hooks.onExitHook.toNat, (hooks.hookArg.getD 0).toNat % 2 ^ 32)) fun hooks member =>
        List.mem_singleton.mp member ▸ stackSemantics_hooked ..
    exact ⟨last, behind, rewritten.layered, nested⟩

end Witness

end ClrProfiling
