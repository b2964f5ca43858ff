import ClrProfiling.Host.Steps

/-! The books of the host: what is registered, what is sent to the server and which tokens the
hooks carry, over all runs of the callbacks. -/

namespace ClrProfiling

open Effect Host

/-- Calls for methods and the methods they are registered with: hooks without a token, and
registrations with the hooks behind them that carry their token. -/
inductive Paired : List HostCall → List MethodMetadata → Prop
  | nil : Paired [] []
  | hooks (paired : Paired calls methods) (methodDef onEnterHook onExitHook : mdMethodDef) :
      Paired (calls ++ [.InjectEnterExitHooks methodDef onEnterHook onExitHook none]) methods
  | profiles (paired : Paired calls methods) (method : MethodMetadata)
    (methodDef onEnterHook onExitHook : mdMethodDef) :
      Paired (calls ++ [.RegisterMethod method,
        .InjectEnterExitHooks methodDef onEnterHook onExitHook (some method.token)]) (methods ++ [method])

/-- The host with all its books in order. -/
structure Booked {clr : Clr} (config : ProfilingConfig) (s : HostState clr) : Prop where
  config : s.config = config
  callback : s.metadataRegistry.methodRegistrationCallback = some CorProfiler.OnMethodRegistered
  counter : s.metadataRegistry.tokenCounter = UInt64.ofNat s.metadataRegistry.methodMetadatas.length
  tokens : s.metadataRegistry.methodMetadatas.map MethodMetadata.token =
    (List.range s.metadataRegistry.methodMetadatas.length).map fun index => UInt64.ofNat (index + 1)
  sent : s.sent = s.metadataRegistry.methodMetadatas.map IpcClient.RegisterMethod
  calls : Paired s.calls s.metadataRegistry.methodMetadatas

section Books

variable {clr : Clr} {config : ProfilingConfig} {s s' : HostState clr}

theorem Booked.silent (booked : Booked config s) (silent : Silent s s') : Booked config s' := by
  obtain ⟨runtime, rfl⟩ := silent
  exact ⟨booked.config, booked.callback, booked.counter, booked.tokens, booked.sent, booked.calls⟩

theorem booked_new (runtime : clr.State) (reply : Option ProfilingConfigMsg) (turns : Nat) :
    Booked (IpcClient.GetProfilingConfig reply) (CorProfiler.new runtime reply turns) :=
  ⟨rfl, rfl, rfl, rfl, rfl, .nil⟩

theorem Booked.profiled (booked : Booked config s) (assemblyName typeName signature : WString)
    (methodDef onEnterHook onExitHook : mdMethodDef) :
    Booked config (ClrProfiling.profiled assemblyName typeName signature methodDef onEnterHook onExitHook s) := by
  have token : s.metadataRegistry.tokenCounter + 1 = UInt64.ofNat (s.metadataRegistry.methodMetadatas.length + 1) := by
    rw [booked.counter, UInt64.ofNat_add]
    rfl
  refine ⟨booked.config, booked.callback, ?_, ?_, ?_, ?_⟩
  · simpa [ClrProfiling.profiled, MetadataRegistry.RegisterMethod] using token
  · simp [ClrProfiling.profiled, MetadataRegistry.RegisterMethod, List.range_succ, booked.tokens, token]
  · simp [ClrProfiling.profiled, MetadataRegistry.RegisterMethod, booked.callback, CorProfiler.OnMethodRegistered,
      booked.sent]
  · exact booked.calls.profiles _ methodDef onEnterHook onExitHook

/-- The books stay in order. -/
def Kept (s s' : HostState clr) : Prop := ∀ config, Booked config s → Booked config s'

instance : Std.Refl (@Kept clr) := ⟨fun _ _ booked => booked⟩

instance : IsTrans (HostState clr) Kept := ⟨fun _ _ _ first second config booked => second config (first config booked)⟩

theorem kept_steps (moduleId : ModuleID) : Steps clr moduleId Kept where
  call request _ := ⟨fun s _ booked => booked.silent ((silent_call request).step s)⟩
  opens := ⟨fun s _ booked => booked.silent ((silent_call _).step s)⟩
  defines _ _ _ _ _ _ _ := ⟨fun s _ booked => booked.silent ((silent_defineWithBody ..).step s)⟩
  hooks methodDef onEnterHook onExitHook := by
    refine ⟨fun _ config booked => Booked.silent ?_ (silent_injectEnterExitHooks ..)⟩
    exact { booked with calls := booked.calls.hooks methodDef onEnterHook onExitHook }
  profiles _ _ _ _ _ _ := ⟨fun _ _ booked => (booked.profiled ..).silent (silent_profile ..)⟩

theorem kept_moduleLoadFinished (moduleId : ModuleID) (hrStatus : HRESULT) :
    Moves Kept (CorProfiler.ModuleLoadFinished moduleId hrStatus : Host clr HRESULT) :=
  (kept_steps moduleId).moduleLoadFinished hrStatus fun _ instrumenter s' run =>
    ((kept_steps moduleId).instrument instrumenter (create_moduleId run)).step s'

theorem booked_callbacks (runtime : clr.State) (reply : Option ProfilingConfigMsg) (turns : Nat)
    (modules : List (ModuleID × HRESULT)) :
    Booked (IpcClient.GetProfilingConfig reply) (callbacks modules (CorProfiler.new runtime reply turns)) :=
  related_callbacks kept_moduleLoadFinished modules _ _ (booked_new runtime reply turns)

/-- Hooks with a token stand behind the registration of a method with that token. -/
theorem Paired.of_token {calls : List HostCall} {methods : List MethodMetadata}
    {methodDef onEnterHook onExitHook : mdMethodDef} {token : UInt64} (paired : Paired calls methods)
    (member : .InjectEnterExitHooks methodDef onEnterHook onExitHook (some token) ∈ calls) :
    ∃ method ∈ methods, method.token = token ∧
      [.RegisterMethod method, .InjectEnterExitHooks methodDef onEnterHook onExitHook (some token)] <:+: calls := by
  induction paired with
  | nil => cases member
  | hooks _ other onEnter onExit ih =>
    rcases List.mem_append.mp member with early | last
    · obtain ⟨method, listed, same, inside⟩ := ih early
      exact ⟨method, listed, same, inside.trans (List.prefix_append ..).isInfix⟩
    · cases List.mem_singleton.mp last
  | profiles _ method other onEnter onExit ih =>
    rcases List.mem_append.mp member with early | last
    · obtain ⟨method, listed, same, inside⟩ := ih early
      exact ⟨method, List.mem_append_left _ listed, same, inside.trans (List.prefix_append ..).isInfix⟩
    · rcases List.mem_cons.mp last with none | last
      · cases none
      · cases List.mem_singleton.mp last
        exact ⟨method, List.mem_append_right _ (List.mem_singleton_self _), rfl, (List.suffix_append ..).isInfix⟩

/-- The methods registered by calls. -/
def registered (calls : List HostCall) : List MethodMetadata :=
  calls.filterMap fun
    | .RegisterMethod method => some method
    | .InjectEnterExitHooks .. => none

theorem Paired.registered {calls : List HostCall} {methods : List MethodMetadata} (paired : Paired calls methods) :
    registered calls = methods := by
  induction paired with
  | nil => rfl
  | hooks _ methodDef onEnterHook onExitHook ih =>
    rw [ClrProfiling.registered, List.filterMap_append, ← ClrProfiling.registered, ih]
    exact List.append_nil _
  | profiles _ method methodDef onEnterHook onExitHook ih =>
    rw [ClrProfiling.registered, List.filterMap_append, ← ClrProfiling.registered, ih]
    rfl

/-- Behind a registration there are the hooks with its token. -/
private theorem Paired.hooks_behind {calls : List HostCall} {methods : List MethodMetadata} {index : Nat}
    {method : MethodMetadata} (paired : Paired calls methods) (here : calls[index]? = some (.RegisterMethod method)) :
    ∃ methodDef onEnterHook onExitHook,
      calls[index + 1]? = some (.InjectEnterExitHooks methodDef onEnterHook onExitHook (some method.token)) := by
  induction paired with
  | nil => cases here
  | @hooks calls _ _ methodDef onEnterHook onExitHook ih =>
    rw [List.getElem?_append] at here
    split at here
    · obtain ⟨methodDef, onEnterHook, onExitHook, behind⟩ := ih here
      have inside := (List.getElem?_eq_some_iff.mp behind).1
      exact ⟨methodDef, onEnterHook, onExitHook, by rw [List.getElem?_append_left inside, behind]⟩
    · rcases last : index - calls.length with _ | rest
      · simp [last] at here
      · simp [last] at here
  | @profiles calls _ _ other methodDef onEnterHook onExitHook ih =>
    rw [List.getElem?_append] at here
    split at here
    · obtain ⟨methodDef, onEnterHook, onExitHook, behind⟩ := ih here
      have inside := (List.getElem?_eq_some_iff.mp behind).1
      exact ⟨methodDef, onEnterHook, onExitHook, by rw [List.getElem?_append_left inside, behind]⟩
    · rename_i outside
      rcases last : index - calls.length with _ | _ | rest
      · rw [last] at here
        cases here
        have next : index + 1 - calls.length = 1 := by omega
        refine ⟨methodDef, onEnterHook, onExitHook, ?_⟩
        rw [List.getElem?_append_right (by omega), next]
        rfl
      · simp [last] at here
      · simp [last] at here

/-- In front of hooks with a token there is the registration it comes from. -/
private theorem Paired.registration_before {calls : List HostCall} {methods : List MethodMetadata} {index : Nat}
    {methodDef onEnterHook onExitHook : mdMethodDef} {token : UInt64} (paired : Paired calls methods)
    (here : calls[index]? = some (.InjectEnterExitHooks methodDef onEnterHook onExitHook (some token))) :
    ∃ before method, index = before + 1 ∧ calls[before]? = some (.RegisterMethod method) ∧ method.token = token := by
  induction paired with
  | nil => cases here
  | @hooks calls _ _ _ _ _ ih =>
    rw [List.getElem?_append] at here
    split at here
    · obtain ⟨before, method, rfl, registration, same⟩ := ih here
      have inside := (List.getElem?_eq_some_iff.mp registration).1
      exact ⟨before, method, rfl, by rw [List.getElem?_append_left inside, registration], same⟩
    · rcases last : index - calls.length with _ | rest
      · simp [last] at here
      · simp [last] at here
  | @profiles calls _ _ other _ _ _ ih =>
    rw [List.getElem?_append] at here
    split at here
    · obtain ⟨before, method, rfl, registration, same⟩ := ih here
      have inside := (List.getElem?_eq_some_iff.mp registration).1
      exact ⟨before, method, rfl, by rw [List.getElem?_append_left inside, registration], same⟩
    · rcases last : index - calls.length with _ | _ | rest
      · simp [last] at here
      · rw [last] at here
        cases here
        refine ⟨calls.length, other, by omega, ?_, rfl⟩
        rw [List.getElem?_append_right (Nat.le_refl _), Nat.sub_self]
        rfl
      · simp [last] at here

theorem Booked.token_mem (booked : Booked config s) (few : s.metadataRegistry.methodMetadatas.length < 2 ^ 64)
    {method : MethodMetadata} (member : method ∈ s.metadataRegistry.methodMetadatas) :
    0 < method.token.toNat ∧ method.token.toNat ≤ s.metadataRegistry.methodMetadatas.length := by
  have token := List.mem_map_of_mem (f := MethodMetadata.token) member
  rw [booked.tokens] at token
  obtain ⟨index, inside, same⟩ := List.mem_map.mp token
  have inside := List.mem_range.mp inside
  rw [← same, UInt64.toNat_ofNat', Nat.mod_eq_of_lt (by omega)]
  omega

/-- No two requests have one token. -/
theorem Booked.distinct (booked : Booked config s) (few : s.metadataRegistry.methodMetadatas.length < 2 ^ 64) :
    (s.sent.map MethodMetadataMsg.token).Nodup := by
  have same : s.sent.map MethodMetadataMsg.token = s.metadataRegistry.methodMetadatas.map MethodMetadata.token := by
    rw [booked.sent, List.map_map]
    rfl
  rw [same, booked.tokens]
  refine List.Nodup.map_on (fun index inside other inside' equal => ?_) List.nodup_range
  have inside := List.mem_range.mp inside
  have inside' := List.mem_range.mp inside'
  have numbers := congrArg UInt64.toNat equal
  rw [UInt64.toNat_ofNat', UInt64.toNat_ofNat', Nat.mod_eq_of_lt (by omega), Nat.mod_eq_of_lt (by omega)] at numbers
  exact Nat.succ_inj.mp numbers

/-- What the host knows of its methods, what it has sent and what its calls say is one and the same, in
every run: registrations are numbered, each is followed by the hooks that carry its token, and no other
hooks carry one. -/
theorem registrations_accounted (runtime : clr.State) (reply : Option ProfilingConfigMsg) (turns : Nat)
    (modules : List (ModuleID × HRESULT)) :
    let s := callbacks modules (CorProfiler.new runtime reply turns)
    s.config = IpcClient.GetProfilingConfig reply ∧
      s.metadataRegistry.methodMetadatas = registered s.calls ∧
      s.sent = (registered s.calls).map IpcClient.RegisterMethod ∧
      s.metadataRegistry.tokenCounter = UInt64.ofNat (registered s.calls).length ∧
      (registered s.calls).map MethodMetadata.token =
        (List.range (registered s.calls).length).map (fun index => UInt64.ofNat (index + 1)) ∧
      (∀ (index : Nat) method, s.calls[index]? = some (.RegisterMethod method) →
        ∃ methodDef onEnterHook onExitHook,
          s.calls[index + 1]? = some (.InjectEnterExitHooks methodDef onEnterHook onExitHook (some method.token))) ∧
      ∀ (index : Nat) methodDef onEnterHook onExitHook token,
        s.calls[index]? = some (.InjectEnterExitHooks methodDef onEnterHook onExitHook (some token)) →
          ∃ before method, index = before + 1 ∧ s.calls[before]? = some (.RegisterMethod method) ∧
            method.token = token := by
  intro s
  have booked := booked_callbacks runtime reply turns modules
  have same := booked.calls.registered
  rw [same]
  exact ⟨booked.config, rfl, booked.sent, booked.counter, booked.tokens,
    fun _ _ here => booked.calls.hooks_behind here, fun _ _ _ _ _ here => booked.calls.registration_before here⟩

end Books

end ClrProfiling
