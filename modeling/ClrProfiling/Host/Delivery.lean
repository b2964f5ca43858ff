import ClrProfiling.Host.Layering

/-! Hooks that arrive: on a runtime that grants its calls, a method has exactly the layers of hooks
that it was given. -/

namespace ClrProfiling

open Effect Host Machine

/-- A runtime that hands out every body it has, and memory for every new one, and takes it. -/
structure Grants (clr : Clr) (bodies : clr.State → ModuleID → mdMethodDef → Option MethodBody) : Prop where
  reads : ∀ moduleId methodDef s, bodies s moduleId methodDef ≠ none →
    ¬FAILED (clr.answer (.GetILFunctionBody moduleId methodDef) s).1.1
  allocators : ∀ moduleId s, ¬FAILED (clr.answer (.GetILFunctionBodyAllocator moduleId) s).1
  memory : ∀ size s, (clr.answer (.Alloc size) s).1 = true
  writes : ∀ moduleId methodDef pBody s, bodies s moduleId methodDef ≠ none →
    ¬FAILED (clr.answer (.SetILFunctionBody moduleId methodDef pBody) s).1

/-- A body of so many nodes takes so many layers of hooks. -/
structure Takes (platform : Platform) (body : MethodBody) (nodes layers : Nat) : Prop where
  token : body.LocalVarSigTok < 2 ^ 32
  hookable : ∃ instrs, Hookable platform body instrs ∧ (importedNodes platform instrs).length < nodes
  small : 5 ^ layers * nodes ≤ 2 ^ 25

section Delivery

variable {clr : Clr} {bodies : clr.State → ModuleID → mdMethodDef → Option MethodBody} {opened : clr.State → ModuleID}
  {moduleId : ModuleID} {methodDef onEnterHook onExitHook : mdMethodDef} {hookArg : Option UInt64}
  {body : MethodBody} {s s' : HostState clr}

private theorem setBody_delivers (keeps : KeepsBodies clr bodies opened) (grants : Grants clr bodies)
    {rewriter : ILRewriter} {code : List UInt8} {pBody : Buffer}
    (present : bodies s.runtime moduleId methodDef = some body)
    (written : rewriter.WrittenBody clr.platform code = .ok pBody) :
    bodies (SetBody moduleId methodDef rewriter code s).2.runtime moduleId methodDef =
      decodeBody (pBody.read 0 pBody.size) := by
  obtain ⟨same, -⟩ := keeps.keeps (.GetILFunctionBodyAllocator moduleId) s.runtime rfl
  obtain ⟨same', -⟩ := keeps.keeps (.Alloc (totalBodySize code.length rewriter.m_pEH.length))
    (clr.answer (.GetILFunctionBodyAllocator moduleId) s.runtime).2 rfl
  have present' := congrFun (congrFun (same'.trans same) moduleId) methodDef
  have granted := grants.writes moduleId methodDef (pBody.read 0 pBody.size) _ (by rw [present', present]; nofun)
  simp only [SetBody, call_bind, if_neg (grants.allocators moduleId s.runtime), grants.memory, if_true, written]
  refine (congrFun (congrFun (keeps.sets _ _ _ _ granted) moduleId) methodDef).trans ?_
  rw [Function.update_self, Function.update_self]

/-- Hooks for a method whose body takes them are around it then. -/
private theorem injected_delivers (keeps : KeepsBodies clr bodies opened) (grants : Grants clr bodies)
    (present : bodies s.runtime moduleId methodDef = some body) {nodes layers : Nat}
    (takes : Takes clr.platform body nodes (layers + 1)) :
    ∃ last, bodies (Host.InjectEnterExitHooks moduleId methodDef onEnterHook onExitHook hookArg s).2.runtime moduleId
        methodDef = some last ∧
      Rewritten clr.platform body [⟨onEnterHook, onExitHook, hookArg⟩] last ∧
      Takes clr.platform last (5 * nodes) layers := by
  obtain ⟨token, ⟨instrs, hookable, few⟩, small⟩ := takes
  have short : (importedNodes clr.platform instrs).length < 2 ^ 25 :=
    few.trans_le ((Nat.le_mul_of_pos_left nodes (Nat.pow_pos (by decide))).trans small)
  obtain ⟨result, run, room, again⟩ := hookable.inject short ⟨onEnterHook, onExitHook, hookArg⟩
  obtain ⟨pBody, written⟩ := WriteBody_injected hookable.toInstrumentable run room
  have sound : SoundBody clr.platform body := ⟨token, instrs, hookable.toInstrumentable⟩
  obtain ⟨last, decoded, rewritten⟩ := rewritten_of_injected sound run written
  have granted := grants.reads moduleId methodDef s.runtime (by rw [present]; nofun)
  have read : (clr.answer (.GetILFunctionBody moduleId methodDef) s.runtime).1.2 = body :=
    Option.some.inj ((keeps.gets moduleId methodDef s.runtime granted).symm.trans present)
  have same := (keeps.keeps (.GetILFunctionBody moduleId methodDef) s.runtime rfl).1
  refine ⟨last, ?_, rewritten, (rewritten.sound sound).token, ?_, ?_⟩
  · obtain ⟨rewriter, code, rewrites, finished⟩ := injected_written_iff.mp ⟨result, run, written⟩
    rw [injectEnterExitHooks_of_ok granted (by rw [read, rewrites]), ← decoded]
    exact setBody_delivers keeps grants (by dsimp only; rw [same, present]) finished
  · obtain ⟨code, clauses⟩ := rewritten.layered.of_run run
    obtain ⟨instrs', hookable', grown⟩ := again last code clauses
    exact ⟨instrs', hookable', by omega⟩
  · rw [← Nat.mul_assoc, ← Nat.pow_succ]
    exact small

/-- The host behind some calls for a module, whose hooks are around its bodies as they were given. -/
structure Delivers (bodies : clr.State → ModuleID → mdMethodDef → Option MethodBody) (moduleId : ModuleID)
    (s s' : HostState clr) : Prop extends Evolves bodies moduleId s s' where
  delivered : ∃ added, s'.calls = s.calls ++ added ∧ (AllSound clr bodies s.runtime → ∀ methodDef body nodes rest,
    bodies s.runtime moduleId methodDef = some body →
      Takes clr.platform body nodes ((hooksOf methodDef added).length + rest) → ∃ last,
        bodies s'.runtime moduleId methodDef = some last ∧
          Rewritten clr.platform body (hooksOf methodDef added) last ∧
          Takes clr.platform last (5 ^ (hooksOf methodDef added).length * nodes) rest)

/-- A method that is given no hooks keeps its body. -/
theorem Evolves.untouched (evolves : Evolves bodies moduleId s s') (sound : AllSound clr bodies s.runtime)
    {added : List HostCall} (calls : s'.calls = s.calls ++ added) (none : hooksOf methodDef added = [])
    (present : bodies s.runtime moduleId methodDef = some body) :
    bodies s'.runtime moduleId methodDef = some body := by
  obtain ⟨others, calls', layered⟩ := evolves.calls
  obtain rfl : others = added := List.append_cancel_left (calls'.symm.trans calls)
  obtain ⟨layers, last, behind, rewritten, part⟩ := layered sound methodDef body present
  rw [none] at part
  obtain rfl := List.sublist_nil.mp part
  cases rewritten.layered
  exact behind

/-- Without hooks every body is what it was. -/
theorem Evolves.delivers (evolves : Evolves bodies moduleId s s') (silent : s'.calls = s.calls) :
    Delivers bodies moduleId s s' where
  toEvolves := evolves
  delivered := by
    have calls : s'.calls = s.calls ++ [] := by rw [silent, List.append_nil]
    refine ⟨[], calls, fun sound methodDef body nodes rest present takes => ?_⟩
    refine ⟨body, evolves.untouched sound calls rfl present, .refl .., ?_⟩
    simpa [hooksOf] using takes

instance : Std.Refl (@Delivers clr bodies moduleId) :=
    ⟨fun s => (Std.Refl.refl s : Evolves bodies moduleId s s).delivers rfl⟩

instance : IsTrans (HostState clr) (Delivers bodies moduleId) where
  trans s s' s'' first second := by
    refine ⟨IsTrans.trans _ _ _ first.toEvolves second.toEvolves, ?_⟩
    obtain ⟨added, calls, early⟩ := first.delivered
    obtain ⟨added', calls', late⟩ := second.delivered
    refine ⟨added ++ added', by rw [calls', calls, List.append_assoc],
      fun sound methodDef body nodes rest present takes => ?_⟩
    rw [hooksOf_append] at takes ⊢
    rw [List.length_append, Nat.add_assoc] at takes
    obtain ⟨middle, between, rewritten, takes⟩ := early sound methodDef body nodes _ present takes
    obtain ⟨last, behind, rewritten', takes⟩ := late (first.sound sound) methodDef middle _ rest between takes
    refine ⟨last, behind, rewritten.trans rewritten', ?_⟩
    rw [List.length_append, Nat.pow_add, Nat.mul_comm (5 ^ _), Nat.mul_assoc]
    exact takes

theorem delivers_asks (keeps : KeepsBodies clr bodies opened) (moduleId : ModuleID) :
    Asks clr moduleId (Delivers bodies moduleId) where
  call request quiet := ⟨fun s => (((evolves_asks keeps moduleId).call request quiet).step s).delivers rfl⟩
  opens := ⟨fun s => ((evolves_asks keeps moduleId).opens.step s).delivers rfl⟩

/-- Hooks that are injected reach the method they are for, and no other one. -/
private theorem delivers_injected (keeps : KeepsBodies clr bodies opened) (grants : Grants clr bodies)
    {before : List HostCall} (none : ∀ methodDef, hooksOf methodDef before = []) {s s₁ : HostState clr}
    (runtime : s₁.runtime = s.runtime) (calls : s₁.calls = s.calls ++ before) :
    Inside opened moduleId (Delivers bodies moduleId) s
      (Host.InjectEnterExitHooks moduleId methodDef onEnterHook onExitHook hookArg s₁).2 := by
  intro inside
  obtain ⟨still, evolves⟩ :=
    inside_injected keeps methodDef onEnterHook onExitHook hookArg runtime calls inside
  obtain ⟨behind, silent⟩ := silent_injectEnterExitHooks moduleId methodDef onEnterHook onExitHook hookArg s₁
  have noted : (Host.InjectEnterExitHooks moduleId methodDef onEnterHook onExitHook hookArg s₁).2.calls =
      s.calls ++ (before ++ [.InjectEnterExitHooks methodDef onEnterHook onExitHook hookArg]) := by
    rw [silent, ← List.append_assoc, ← calls]
  refine ⟨still, evolves, _, noted, fun sound other body nodes rest present takes => ?_⟩
  by_cases this : methodDef = other
  · subst this
    have one : hooksOf methodDef (before ++ [.InjectEnterExitHooks methodDef onEnterHook onExitHook hookArg]) =
        [⟨onEnterHook, onExitHook, hookArg⟩] := by
      rw [hooksOf_append, none]
      simp [hooksOf]
    rw [one] at takes ⊢
    rw [List.length_singleton, Nat.add_comm] at takes
    rw [List.length_singleton, Nat.pow_one]
    exact injected_delivers keeps grants (by rw [runtime, present]) takes
  · have zero : hooksOf other (before ++ [.InjectEnterExitHooks methodDef onEnterHook onExitHook hookArg]) = [] := by
      rw [hooksOf_append, none]
      simp [hooksOf, this]
    refine ⟨body, evolves.untouched sound noted zero present, ?_⟩
    rw [zero] at takes ⊢
    exact ⟨.refl .., by simpa using takes⟩

theorem delivers_steps (keeps : KeepsBodies clr bodies opened) (grants : Grants clr bodies)
    (opcodes : StubOpcodes clr.platform.toOpcodeDef) (moduleId : ModuleID) :
    Steps clr moduleId (Inside opened moduleId (Delivers bodies moduleId)) where
  toAsks := (delivers_asks keeps moduleId).inside keeps
  defines typeDef name flags signature implFlags pBody stub := by
    refine ⟨fun s inside => ?_⟩
    obtain ⟨still, evolves⟩ := inside_defined keeps opcodes typeDef name flags signature implFlags stub s inside
    obtain ⟨behind, silent⟩ :=
      (silent_defineWithBody moduleId typeDef name flags signature implFlags pBody).step s
    exact ⟨still, evolves.delivers (by rw [silent])⟩
  hooks methodDef onEnterHook onExitHook :=
    ⟨fun _ => delivers_injected keeps grants (fun _ => rfl) rfl (List.append_nil _).symm⟩
  profiles _ _ _ methodDef onEnterHook onExitHook := ⟨fun _ => delivers_injected keeps grants (fun _ => rfl) rfl rfl⟩

theorem delivers_moduleLoadFinished (keeps : KeepsBodies clr bodies opened) (grants : Grants clr bodies)
    (opcodes : StubOpcodes clr.platform.toOpcodeDef) (moduleId : ModuleID) (hrStatus : HRESULT) :
    Moves (Delivers bodies moduleId) (CorProfiler.ModuleLoadFinished moduleId hrStatus) :=
  (delivers_asks keeps moduleId).callback keeps (delivers_steps keeps grants opcodes moduleId) hrStatus

/-- Every hook arrives: on a runtime that grants its calls, a method whose body takes the hooks that the
callbacks for its module give to it has that body, in exactly these layers and in their order. -/
theorem hooks_delivered (keeps : KeepsBodies clr bodies opened) (grants : Grants clr bodies)
    (opcodes : StubOpcodes clr.platform.toOpcodeDef) (modules : List (ModuleID × HRESULT)) (s : HostState clr)
    (sound : AllSound clr bodies s.runtime) {nodes : Nat} (present : bodies s.runtime moduleId methodDef = some body)
    (takes : Takes clr.platform body nodes (hooksGiven moduleId methodDef modules s).length) :
    ∃ last, bodies (callbacks modules s).runtime moduleId methodDef = some last ∧
      Rewritten clr.platform body (hooksGiven moduleId methodDef modules s) last := by
  induction modules generalizing s body nodes with
  | nil => exact ⟨body, present, .refl ..⟩
  | cons module rest ih =>
    have delivers := (delivers_moduleLoadFinished keeps grants opcodes module.1 module.2).step s
    have sound' := delivers.sound sound
    rw [hooksGiven] at takes ⊢
    by_cases here : module.1 = moduleId
    · subst here
      obtain ⟨added, calls, delivered⟩ := delivers.delivered
      rw [if_pos rfl, calls, List.drop_left] at takes ⊢
      rw [List.length_append] at takes
      obtain ⟨middle, between, rewritten, takes⟩ := delivered sound methodDef body nodes _ present takes
      obtain ⟨last, behind, rewritten'⟩ := ih _ sound' between takes
      exact ⟨last, behind, rewritten.trans rewritten'⟩
    · have same := congrFun (delivers.others moduleId (Ne.symm here)) methodDef
      rw [if_neg here, List.nil_append] at takes ⊢
      exact ih _ sound' (same.trans present) takes

end Delivery

section Witness

theorem imageRuntime_grants (assemblyName : WString) (tickCount : UInt32) :
    Grants (imageRuntime assemblyName tickCount) Image.bodies where
  reads moduleId methodDef image present := by
    obtain ⟨body, found⟩ := Option.ne_none_iff_exists'.mp present
    dsimp only [imageRuntime]
    rw [found]
    exact (by decide : ¬FAILED S_OK)
  allocators _ _ := (by decide : ¬FAILED S_OK)
  memory _ _ := rfl
  writes _ _ _ _ _ := (by decide : ¬FAILED S_OK)

theorem leftTry_takes : Takes Ecma335.platform leftTry 6 1 where
  token := by decide
  hookable := ⟨leftTryInstrs, ⟨⟨leftTry_valid, leftTry_code, leftTry_wellFormed⟩, leftTry_targets, 0, by decide⟩,
    by decide⟩
  small := by decide

/-- The hooks of the program reach its one method. -/
theorem hooks_delivered_program : ∃ last,
    (callbacks [(1, S_OK)] programHost).runtime.bodies 1 0x06000001 = some last ∧
      Rewritten Ecma335.platform leftTry [⟨0x06000004, 0x06000005, some 1⟩] last := by
  have opcodes : StubOpcodes (imageRuntime (wide "App") 0).platform.toOpcodeDef :=
    ⟨by decide, by decide, by decide, by decide⟩
  have takes : Takes (imageRuntime (wide "App") 0).platform leftTry 6
      (hooksGiven 1 0x06000001 [(1, S_OK)] programHost).length := by
    rw [programHost_given]
    exact leftTry_takes
  obtain ⟨last, behind, rewritten⟩ := hooks_delivered (imageRuntime_keepsBodies (wide "App") 0)
    (imageRuntime_grants (wide "App") 0) opcodes [(1, S_OK)] programHost programHost_sound programHost_body takes
  rw [programHost_given] at rewritten
  exact ⟨last, behind, rewritten⟩

end Witness

end ClrProfiling
