import ClrProfiling.Core.ProfilerService
import ClrProfiling.IL.ReportedTokens

/-! Registrations and events of many processes at one server: which method the token of an
event stands for when it arrives, over all interleavings. -/

namespace ClrProfiling

namespace MetadataRegistry

variable {World : Type}

/-- The increment of the counter, the first of the steps of `RegisterMethod`. -/
def increment (registry : MetadataRegistry World) : UInt64 × MetadataRegistry World :=
  (registry.tokenCounter + 1, { registry with tokenCounter := registry.tokenCounter + 1 })

/-- The new entry of the list, the second one. -/
def push (registry : MetadataRegistry World) (metadata : MethodMetadata) : MetadataRegistry World :=
  { registry with methodMetadatas := registry.methodMetadatas ++ [metadata] }

/-- `RegisterMethod` is its steps, one behind the other. -/
theorem RegisterMethod_eq (registry : MetadataRegistry World) (world : World)
    (assemblyName typeName signature : WString) :
    registry.RegisterMethod world assemblyName typeName signature =
      let (token, registry) := registry.increment
      let metadata := ⟨token, assemblyName, typeName, signature⟩
      (metadata, registry.push metadata, match registry.methodRegistrationCallback with
        | some callback => callback metadata world
        | none => world) := rfl

end MetadataRegistry

namespace Core

open Transition

/-- Where a thread that instruments a module is: with nothing to do, or with a method that it
has taken a token for, entered in the list, sent to the server, had registered there, or been
given back by `RegisterMethod`. -/
inductive Stage where
  | idle
  | counted (metadata : ClrProfiling.MethodMetadata)
  | listed (metadata : ClrProfiling.MethodMetadata)
  | calling (metadata : ClrProfiling.MethodMetadata)
  | answered (metadata : ClrProfiling.MethodMetadata)
  | registered (metadata : ClrProfiling.MethodMetadata)
deriving DecidableEq, Repr

/-- The method a thread is busy with. -/
def Stage.method : Stage → Option ClrProfiling.MethodMetadata
  | .idle => none
  | .counted metadata => some metadata
  | .listed metadata => some metadata
  | .calling metadata => some metadata
  | .answered metadata => some metadata
  | .registered metadata => some metadata

/-- The value the `ulong` parameter of a hook has in a call from the probes for a token. -/
def reportedToken (token : UInt64) : UInt64 := ⟨(reported token).extended⟩

/-- The probes report the token itself. -/
def Reportable (token : UInt64) : Prop := token.toNat < 2 ^ 31 ∨ 2 ^ 64 - 2 ^ 31 ≤ token.toNat

theorem reportedToken_eq_iff (token : UInt64) : reportedToken token = token ↔ Reportable token := by
  rw [Reportable, ← extended_reported_iff]
  exact ⟨fun same => congrArg UInt64.toBitVec same, fun same => congrArg UInt64.ofBitVec same⟩

/-- The token of an event. -/
def eventToken : Message → UInt64
  | .RegisterClient _ => 0
  | .OnMethodEnter methodToken _ => methodToken
  | .OnMethodExit methodToken _ => methodToken

/-- A profiled process. `hooks` are the methods with hooks, `pipe` is what their hooks have
sent, the oldest first, with the methods it comes from. -/
structure Process (Thread : Type) where
  metadataRegistry : ClrProfiling.MetadataRegistry Unit
  threads : Thread → Stage
  hooks : List ClrProfiling.MethodMetadata
  pipe : List (ClrProfiling.MethodMetadata × Message)

inductive Action (Thread : Type) where
  | count (thread : Thread) (metadata : ClrProfiling.MethodMetadata)
  | list (thread : Thread)
  | call (thread : Thread)
  | finish (thread : Thread)
  | hook (thread : Thread) (metadata : ClrProfiling.MethodMetadata)
  | fail (thread : Thread)
  | notify (metadata : ClrProfiling.MethodMetadata) (message : Message)

/-- The methods an action takes a token for. -/
def Action.taken {Thread : Type} : Action Thread → List ClrProfiling.MethodMetadata
  | .count _ metadata => [metadata]
  | _ => []

namespace Process

variable {Thread : Type} [DecidableEq Thread]

def new : Process Thread := ⟨ClrProfiling.MetadataRegistry.new, fun _ => .idle, [], []⟩

/-- The process with a thread at another stage. -/
def move (process : Process Thread) (thread : Thread) (stage : Stage) : Process Thread :=
  { process with threads := Function.update process.threads thread stage }

/-- What a process does by itself. Threads that instrument modules go through `RegisterMethod`
and hook the method, or fail to; methods that are hooked send events. -/
inductive Step : Process Thread → Action Thread → Process Thread → Prop
  | count (assemblyName typeName signature : WString) (idle : process.threads thread = .idle) :
    Step process (.count thread ⟨process.metadataRegistry.increment.1, assemblyName, typeName, signature⟩)
      { process.move thread (.counted ⟨process.metadataRegistry.increment.1, assemblyName, typeName, signature⟩) with
        metadataRegistry := process.metadataRegistry.increment.2 }
  | list {thread : Thread} {metadata : ClrProfiling.MethodMetadata}
    (counted : process.threads thread = .counted metadata) :
    Step process (.list thread)
      { process.move thread (.listed metadata) with metadataRegistry := process.metadataRegistry.push metadata }
  | call (listed : process.threads thread = .listed metadata) :
    Step process (.call thread) (process.move thread (.calling metadata))
  | finish (answered : process.threads thread = .answered metadata) :
    Step process (.finish thread) (process.move thread (.registered metadata))
  | hook (registered : process.threads thread = .registered metadata) :
    Step process (.hook thread metadata) { process.move thread .idle with hooks := process.hooks ++ [metadata] }
  | fail (registered : process.threads thread = .registered metadata) :
    Step process (.fail thread) (process.move thread .idle)
  | enter (hooked : metadata ∈ process.hooks) (threadId : Int32) :
    Step process (.notify metadata (.OnMethodEnter (reportedToken metadata.token) threadId))
      { process with pipe := process.pipe ++ [(metadata, .OnMethodEnter (reportedToken metadata.token) threadId)] }
  | exit (hooked : metadata ∈ process.hooks) (threadId : Int32) :
    Step process (.notify metadata (.OnMethodExit (reportedToken metadata.token) threadId))
      { process with pipe := process.pipe ++ [(metadata, .OnMethodExit (reportedToken metadata.token) threadId)] }

/-- The server has answered for a method. -/
inductive Acknowledged (process : Process Thread) (method : ClrProfiling.MethodMetadata) : Prop
  | answered (stage : process.threads thread = .answered method)
  | registered (stage : process.threads thread = .registered method)
  | hooked (member : method ∈ process.hooks)
  | sent (member : (method, message) ∈ process.pipe)

/-- What an action does to the methods of a process: it takes at most the next token, and has
nothing to do with methods that the server has not answered for. -/
structure Moves (process : Process Thread) (action : Action Thread) (process' : Process Thread) : Prop where
  counter : process'.metadataRegistry.tokenCounter =
    process.metadataRegistry.tokenCounter + UInt64.ofNat action.taken.length
  next : ∀ method ∈ action.taken, method.token = process.metadataRegistry.tokenCounter + 1
  staged : ∀ thread method, (process'.threads thread).method = some method →
    (∃ before, (process.threads before).method = some method) ∨ method ∈ action.taken
  acknowledged : ∀ method, process'.Acknowledged method → process.Acknowledged method
  sent : ∀ method message, (method, message) ∈ process'.pipe → (method, message) ∈ process.pipe ∨
    eventToken message = reportedToken method.token

theorem move_threads (process : Process Thread) (thread other : Thread) (stage : Stage) :
    (process.move thread stage).threads other = if other = thread then stage else process.threads other :=
  Function.update_apply process.threads thread stage other

private theorem move_method {process : Process Thread} {thread other : Thread} {stage : Stage}
    {method : ClrProfiling.MethodMetadata} (kept : ((process.move thread stage).threads other).method = some method) :
    stage.method = some method ∨ (process.threads other).method = some method := by
  rw [move_threads] at kept
  split at kept
  · exact .inl kept
  · exact .inr kept

private theorem move_answered {process : Process Thread} {thread other : Thread} {stage : Stage}
    {method : ClrProfiling.MethodMetadata} (acknowledged : stage = .answered method ∨ stage = .registered method →
      process.Acknowledged method)
    (kept : (process.move thread stage).threads other = .answered method ∨
      (process.move thread stage).threads other = .registered method) : process.Acknowledged method := by
  rw [move_threads] at kept
  split at kept
  · exact acknowledged kept
  · rcases kept with answered | registered
    · exact .answered answered
    · exact .registered registered

private theorem move_acknowledged {process : Process Thread} {thread : Thread} {stage : Stage}
    {method : ClrProfiling.MethodMetadata} (acknowledged : stage = .answered method ∨ stage = .registered method →
      process.Acknowledged method) (kept : (process.move thread stage).Acknowledged method) :
    process.Acknowledged method := by
  cases kept with
  | answered stage => exact move_answered acknowledged (.inl stage)
  | registered stage => exact move_answered acknowledged (.inr stage)
  | hooked member => exact .hooked member
  | sent member => exact .sent member

private theorem move_moves {process : Process Thread} {action : Action Thread} {thread : Thread} {stage : Stage}
    (none : action.taken = [])
    (method : ∀ method, stage.method = some method → (process.threads thread).method = some method)
    (acknowledged : ∀ method, stage = .answered method ∨ stage = .registered method → process.Acknowledged method) :
    Moves process action (process.move thread stage) where
  counter := by
    rw [none]
    exact (UInt64.add_zero _).symm
  next := by
    rw [none]
    exact nofun
  staged other method' kept := by
    rcases move_method kept with same | kept
    · exact .inl ⟨thread, method method' same⟩
    · exact .inl ⟨other, kept⟩
  acknowledged method' := move_acknowledged (acknowledged method')
  sent _ _ := .inl

omit [DecidableEq Thread] in
private theorem acknowledged_registry {process : Process Thread} {metadataRegistry : ClrProfiling.MetadataRegistry Unit}
    {method : ClrProfiling.MethodMetadata} (kept : { process with metadataRegistry }.Acknowledged method) :
    process.Acknowledged method := by
  cases kept with
  | answered stage => exact .answered stage
  | registered stage => exact .registered stage
  | hooked member => exact .hooked member
  | sent member => exact .sent member

private theorem hook_moves {process : Process Thread} {thread : Thread} {metadata : ClrProfiling.MethodMetadata}
    (registered : process.threads thread = .registered metadata) : Moves process (.hook thread metadata)
      { process.move thread .idle with hooks := process.hooks ++ [metadata] } := by
  have idle : Moves process (.hook thread metadata) (process.move thread .idle) := move_moves rfl nofun nofun
  refine ⟨idle.counter, idle.next, idle.staged, fun method kept => ?_, idle.sent⟩
  cases kept with
  | answered stage => exact idle.acknowledged method (.answered stage)
  | registered stage => exact idle.acknowledged method (.registered stage)
  | hooked member =>
    rcases List.mem_append.mp member with old | new
    · exact .hooked old
    · rw [List.mem_singleton.mp new]
      exact .registered registered
  | sent member => exact .sent member

omit [DecidableEq Thread] in
private theorem notify_moves {process : Process Thread} {metadata : ClrProfiling.MethodMetadata} {message : Message}
    (hooked : metadata ∈ process.hooks) (token : eventToken message = reportedToken metadata.token) :
    Moves process (.notify metadata message) { process with pipe := process.pipe ++ [(metadata, message)] } := by
  refine ⟨(UInt64.add_zero _).symm, nofun, fun thread method kept => .inl ⟨thread, kept⟩, fun method kept => ?_,
    fun method message' member => ?_⟩
  · cases kept with
    | answered stage => exact .answered stage
    | registered stage => exact .registered stage
    | hooked member => exact .hooked member
    | sent member =>
      rcases List.mem_append.mp member with old | new
      · exact .sent old
      · cases List.mem_singleton.mp new
        exact .hooked hooked
  · rcases List.mem_append.mp member with old | new
    · exact .inl old
    · cases List.mem_singleton.mp new
      exact .inr token

theorem Step.moves {process process' : Process Thread} {action : Action Thread} (step : Step process action process') :
    Moves process action process' := by
  cases step with
  | @count thread assemblyName typeName signature idle =>
    refine ⟨rfl, fun method member => ?_, fun other method kept => ?_, fun method kept => ?_, fun _ _ => .inl⟩
    · rw [List.mem_singleton.mp member]
      rfl
    · rcases move_method kept with same | kept
      · cases same
        exact .inr (List.mem_singleton_self _)
      · exact .inl ⟨other, kept⟩
    · refine move_acknowledged ?_ (acknowledged_registry kept)
      rintro (⟨⟨⟩⟩ | ⟨⟨⟩⟩)
  | @list _ thread metadata counted =>
    have listed : Moves process (.list thread) (process.move thread (.listed metadata)) := by
      refine move_moves rfl (fun method same => ?_) (by rintro method (⟨⟨⟩⟩ | ⟨⟨⟩⟩))
      rw [counted]
      exact same
    exact ⟨listed.counter, listed.next, listed.staged,
      fun method kept => listed.acknowledged method (acknowledged_registry kept), listed.sent⟩
  | call listed =>
    refine move_moves rfl (fun method same => ?_) (by rintro method (⟨⟨⟩⟩ | ⟨⟨⟩⟩))
    rw [listed]
    exact same
  | finish answered =>
    refine move_moves rfl (fun method same => ?_) ?_
    · rw [answered]
      exact same
    · rintro method (⟨⟨⟩⟩ | ⟨⟨⟩⟩)
      exact .answered answered
  | hook registered => exact hook_moves registered
  | fail registered => exact move_moves rfl nofun nofun
  | enter hooked threadId => exact notify_moves hooked rfl
  | exit hooked threadId => exact notify_moves hooked rfl

end Process

/-- The processes, and the sessions the server keeps of them. -/
structure System (Client Thread : Type) where
  processes : Client → Process Thread
  sessionRegistry : SessionRegistry Unit

namespace System

variable {Client Thread : Type}

inductive Label (Client Thread : Type) where
  | act (client : Client) (action : Action Thread)
  | register (client : Client) (metadata : ClrProfiling.MethodMetadata)
  | request (pid : Pid)
  | handle (client : Client) (metadata : ClrProfiling.MethodMetadata) (message : Message)
    (resolved : Option MethodMetadata)

/-- What the server makes of a registered method. -/
def image (metadata : ClrProfiling.MethodMetadata) : MethodMetadata :=
  HostIpcService.received (IpcClient.RegisterMethod metadata)

/-- What a token stands for in the session of a process. -/
def resolve (sessionRegistry : SessionRegistry Unit) (pid : Pid) (token : UInt64) : Option MethodMetadata :=
  (sessionRegistry.session pid).metadataRegistry.ResolveMethodToken token

def start : System Client Thread := ⟨fun _ => Process.new, SessionRegistry.new⟩

section Steps

variable [DecidableEq Client] [DecidableEq Thread]

/-- The processes act, their requests are answered and their events handled, in any order. A
session may be asked for at any time. -/
inductive Step (pid : Client → Pid) : System Client Thread → Label Client Thread → System Client Thread → Prop
  | act {client : Client} (acts : Process.Step (s.processes client) action process) :
    Step pid s (.act client action) { s with processes := Function.update s.processes client process }
  | register {client : Client} (thread : Thread) (calling : (s.processes client).threads thread = .calling metadata) :
    Step pid s (.register client metadata) {
      processes := Function.update s.processes client ((s.processes client).move thread (.answered metadata))
      sessionRegistry := HostIpcService.RegisterMethod s.sessionRegistry (pid client)
        (IpcClient.RegisterMethod metadata) }
  | request (pid' : Pid) : Step pid s (.request pid') { s with sessionRegistry := (s.sessionRegistry.Get pid').2 }
  | handle {client : Client} (head : (s.processes client).pipe = (metadata, message) :: rest) :
    Step pid s (.handle client metadata message (resolve s.sessionRegistry (pid client) (eventToken message))) {
      processes := Function.update s.processes client { s.processes client with pipe := rest }
      sessionRegistry := (s.sessionRegistry.Get (pid client)).2 }

end Steps

/-- The methods a process has taken tokens for, in their order. -/
def created [DecidableEq Client] (client : Client) (labels : List (Label Client Thread)) :
    List ClrProfiling.MethodMetadata :=
  labels.filterMap fun
    | .act other (.count _ metadata) => if other = client then some metadata else none
    | _ => none

/-- Every event that is handled stands for the method it comes from, under the token that
method was registered with. -/
def Resolves [DecidableEq Client] (labels : List (Label Client Thread)) : Prop :=
  ∀ client metadata message resolved, .handle client metadata message resolved ∈ labels →
    metadata ∈ created client labels ∧ eventToken message = metadata.token ∧ resolved = some (image metadata)

/-- Every event that is handled is one of a method with a token that can be reported. -/
def AllReportable (labels : List (Label Client Thread)) : Prop :=
  ∀ client metadata message resolved, .handle client metadata message resolved ∈ labels → Reportable metadata.token

section Invariant

variable [DecidableEq Client] {pid : Client → Pid} {labels : List (Label Client Thread)} {s s' : System Client Thread}

/-- An event came from a method of the process, with what its probes report. What it resolves
to is that method where they report its token, and a method of the process in any case. -/
structure Handled (client : Client) (labels : List (Label Client Thread)) (method : ClrProfiling.MethodMetadata)
    (message : Message) (resolved : Option MethodMetadata) : Prop where
  listed : method ∈ created client labels
  token : eventToken message = reportedToken method.token
  own : Reportable method.token → resolved = some (image method)
  stored : ∀ found, resolved = some found →
    ∃ other ∈ created client labels, other.token = eventToken message ∧ found = image other

/-- The link between a process and what the server knows: tokens count the methods of the
process, and what the server has answered for resolves. -/
structure Linked (pid : Client → Pid) (labels : List (Label Client Thread)) (sessionRegistry : SessionRegistry Unit)
    (client : Client) (process : Process Thread) : Prop where
  counter : process.metadataRegistry.tokenCounter = UInt64.ofNat (created client labels).length
  staged : ∀ thread method, (process.threads thread).method = some method → method ∈ created client labels
  known : ∀ method, process.Acknowledged method → method ∈ created client labels ∧
    resolve sessionRegistry (pid client) method.token = some (image method)
  sent : ∀ method message, (method, message) ∈ process.pipe → eventToken message = reportedToken method.token

/-- The invariant: every process is linked to its session, which has nothing but methods of
the process, and its events were handled accordingly. -/
structure Holds (pid : Client → Pid) (labels : List (Label Client Thread)) (s : System Client Thread) : Prop where
  linked : ∀ client, Linked pid labels s.sessionRegistry client (s.processes client)
  tokens : ∀ client, (created client labels).map (·.token) =
    (List.range (created client labels).length).map fun index => UInt64.ofNat (index + 1)
  stored : ∀ client token found, resolve s.sessionRegistry (pid client) token = some found →
    ∃ method ∈ created client labels, method.token = token ∧ found = image method
  handled : ∀ client method message resolved, .handle client method message resolved ∈ labels →
    Handled client labels method message resolved

theorem created_append (client : Client) (first second : List (Label Client Thread)) :
    created client (first ++ second) = created client first ++ created client second := List.filterMap_append

theorem holds_start : Holds pid ([] : List (Label Client Thread)) start where
  linked client := by
    refine ⟨rfl, nofun, fun method known => ?_, nofun⟩
    cases known with
    | answered stage => cases stage
    | registered stage => cases stage
    | hooked member => cases member
    | sent member => cases member
  tokens _ := rfl
  stored _ _ _ none := nomatch none
  handled _ _ _ _ none := nomatch none

theorem Holds.nodup (holds : Holds pid labels s) (client : Client) (few : (created client labels).length < 2 ^ 64) :
    ((created client labels).map (·.token)).Nodup := by
  rw [holds.tokens]
  refine List.Nodup.map_on (fun first early second late same => ?_) List.nodup_range
  have value := congrArg UInt64.toNat same
  rw [UInt64.toNat_ofNat', UInt64.toNat_ofNat'] at value
  have small := List.mem_range.mp early
  have small' := List.mem_range.mp late
  omega

theorem resolve_Get (sessionRegistry : SessionRegistry Unit) (pid other : Pid) (token : UInt64) :
    resolve (sessionRegistry.Get pid).2 other token = resolve sessionRegistry other token := by
  rw [resolve, SessionRegistry.session_Get]
  rfl

theorem resolve_RegisterMethod (sessionRegistry : SessionRegistry Unit) (pid other : Pid) (token : UInt64)
    (method : ClrProfiling.MethodMetadata) :
    resolve (HostIpcService.RegisterMethod sessionRegistry pid (IpcClient.RegisterMethod method)) other token =
      if other = pid ∧ token = method.token then some (image method) else resolve sessionRegistry other token := by
  rw [resolve, HostIpcService.session_RegisterMethod]
  by_cases same : other = pid
  · rw [if_pos same, same]
    simp only [true_and]
    exact MetadataRegistry.ResolveMethodToken_RegisterMethod _ _ _
  · rw [if_neg same, if_neg fun both => same both.1]
    rfl

theorem created_act (client other : Client) (action : Action Thread) :
    created other [.act client action] = if other = client then action.taken else [] := by
  rw [created]
  cases action with
  | count thread metadata => by_cases same : other = client <;> simp [Action.taken, same, Ne.symm]
  | _ => simp [Action.taken]

private theorem created_quiet {label : Label Client Thread} (quiet : ∀ client action, label ≠ .act client action)
    (client : Client) : created client (labels ++ [label]) = created client labels := by
  rw [created_append]
  cases label with
  | act client action => exact absurd rfl (quiet client action)
  | register => exact List.append_nil _
  | request => exact List.append_nil _
  | handle => exact List.append_nil _

private theorem created_mono {client : Client} {method : ClrProfiling.MethodMetadata} {label : Label Client Thread}
    (member : method ∈ created client labels) : method ∈ created client (labels ++ [label]) := by
  rw [created_append]
  exact List.mem_append_left _ member

private theorem Handled.mono {client : Client} {method : ClrProfiling.MethodMetadata} {message : Message}
    {resolved : Option MethodMetadata} {label : Label Client Thread}
    (handled : Handled client labels method message resolved) :
    Handled client (labels ++ [label]) method message resolved := by
  refine ⟨created_mono handled.listed, handled.token, handled.own, fun found same => ?_⟩
  obtain ⟨other, listed, token, same⟩ := handled.stored found same
  exact ⟨other, created_mono listed, token, same⟩

private theorem Holds.handled_snoc (holds : Holds pid labels s) {label : Label Client Thread}
    (last : ∀ client method message resolved, label = .handle client method message resolved →
      Handled client labels method message resolved)
    (client : Client) (method : ClrProfiling.MethodMetadata) (message : Message) (resolved : Option MethodMetadata)
    (member : .handle client method message resolved ∈ labels ++ [label]) :
    Handled client (labels ++ [label]) method message resolved := by
  rcases List.mem_append.mp member with early | late
  · exact (holds.handled client method message resolved early).mono
  · exact (last client method message resolved (List.mem_singleton.mp late).symm).mono

private theorem tokens_taken {methods : List ClrProfiling.MethodMetadata} {action : Action Thread}
    (tokens : methods.map (·.token) = (List.range methods.length).map fun index => UInt64.ofNat (index + 1))
    (next : ∀ method ∈ action.taken, method.token = UInt64.ofNat methods.length + 1) :
    (methods ++ action.taken).map (·.token) =
      (List.range (methods ++ action.taken).length).map fun index => UInt64.ofNat (index + 1) := by
  cases action with
  | count thread metadata =>
    have token : metadata.token = UInt64.ofNat (methods.length + 1) := by
      rw [UInt64.ofNat_add]
      exact next metadata (List.mem_singleton_self _)
    rw [Action.taken, List.map_append, tokens, List.length_append, List.length_singleton, List.range_succ,
      List.map_append, List.map_singleton, List.map_singleton, token]
  | _ => simpa [Action.taken] using tokens

private theorem Linked.idle {sessionRegistry sessionRegistry' : SessionRegistry Unit} {client : Client}
    {process : Process Thread} {labels' : List (Label Client Thread)}
    (linked : Linked pid labels sessionRegistry client process)
    (same : created client labels' = created client labels)
    (kept : ∀ method ∈ created client labels, resolve sessionRegistry (pid client) method.token = some (image method) →
      resolve sessionRegistry' (pid client) method.token = some (image method)) :
    Linked pid labels' sessionRegistry' client process where
  counter := by
    rw [same]
    exact linked.counter
  staged := by
    rw [same]
    exact linked.staged
  known method acknowledged := by
    obtain ⟨listed, resolves⟩ := linked.known method acknowledged
    rw [same]
    exact ⟨listed, kept method listed resolves⟩
  sent := linked.sent

private theorem Holds.lookup (holds : Holds pid labels s) {label : Label Client Thread}
    (quiet : ∀ client action, label ≠ .act client action) (other : Pid)
    (last : ∀ client method message resolved, label = .handle client method message resolved →
      Handled client labels method message resolved) :
    Holds pid (labels ++ [label]) { s with sessionRegistry := (s.sessionRegistry.Get other).2 } := by
  refine ⟨fun client => ?_, fun client => ?_, fun client token found kept => ?_, holds.handled_snoc last⟩
  · apply (holds.linked client).idle (created_quiet quiet client)
    intro method _ resolves
    rw [resolve_Get]
    exact resolves
  · rw [created_quiet quiet]
    exact holds.tokens client
  · rw [resolve_Get] at kept
    rw [created_quiet quiet]
    exact holds.stored client token found kept

private theorem Holds.handle (holds : Holds pid labels s) {client : Client} {metadata : ClrProfiling.MethodMetadata}
    {message : Message} {rest : List (ClrProfiling.MethodMetadata × Message)}
    (head : (s.processes client).pipe = (metadata, message) :: rest) :
    Holds pid (labels ++ [.handle client metadata message
      (resolve s.sessionRegistry (pid client) (eventToken message))]) {
      processes := Function.update s.processes client { s.processes client with pipe := rest }
      sessionRegistry := (s.sessionRegistry.Get (pid client)).2 } := by
  have first : (metadata, message) ∈ (s.processes client).pipe := by
    rw [head]
    exact List.mem_cons_self
  have token := (holds.linked client).sent metadata message first
  obtain ⟨listed, resolves⟩ := (holds.linked client).known metadata (.sent first)
  have handled : Handled client labels metadata message
      (resolve s.sessionRegistry (pid client) (eventToken message)) := by
    refine ⟨listed, token, fun reportable => ?_, holds.stored client (eventToken message)⟩
    rw [token, (reportedToken_eq_iff metadata.token).mpr reportable]
    exact resolves
  have looked : Holds pid
      (labels ++ [.handle client metadata message (resolve s.sessionRegistry (pid client) (eventToken message))])
      { s with sessionRegistry := (s.sessionRegistry.Get (pid client)).2 } := by
    refine holds.lookup (by nofun) (pid client) ?_
    rintro _ _ _ _ ⟨⟩
    exact handled
  refine ⟨(Function.forall_update_iff _ _).mpr ⟨?_, fun other _ => looked.linked other⟩, looked.tokens, looked.stored,
    looked.handled⟩
  have linked := looked.linked client
  have later {method : ClrProfiling.MethodMetadata} {message' : Message} (member : (method, message') ∈ rest) :
      (method, message') ∈ (s.processes client).pipe := by
    rw [head]
    exact List.mem_cons_of_mem _ member
  refine ⟨linked.counter, linked.staged, fun method acknowledged => linked.known method ?_,
    fun method message' member => linked.sent method message' (later member)⟩
  cases acknowledged with
  | answered stage => exact .answered stage
  | registered stage => exact .registered stage
  | hooked member => exact .hooked member
  | sent member => exact .sent (later member)

variable [DecidableEq Thread]

private theorem Linked.act {sessionRegistry : SessionRegistry Unit} {client : Client}
    {process process' : Process Thread}
    {action : Action Thread}
    (linked : Linked pid labels sessionRegistry client process) (acts : process.Step action process') :
    Linked pid (labels ++ [.act client action]) sessionRegistry client process' := by
  have moves := acts.moves
  have listed : created client (labels ++ [.act client action]) = created client labels ++ action.taken := by
    rw [created_append, created_act, if_pos rfl]
  refine ⟨?_, fun thread method staged => ?_, fun method acknowledged => ?_, fun method message sent => ?_⟩
  · rw [listed, List.length_append, UInt64.ofNat_add, ← linked.counter]
    exact moves.counter
  · rw [listed]
    rcases moves.staged thread method staged with ⟨before, staged⟩ | taken
    · exact List.mem_append_left _ (linked.staged before method staged)
    · exact List.mem_append_right _ taken
  · obtain ⟨member, resolves⟩ := linked.known method (moves.acknowledged method acknowledged)
    exact ⟨created_mono member, resolves⟩
  · rcases moves.sent method message sent with early | late
    · exact linked.sent method message early
    · exact late

private theorem Holds.act (holds : Holds pid labels s) {client : Client} {action : Action Thread}
    {process : Process Thread} (acts : Process.Step (s.processes client) action process) :
    Holds pid (labels ++ [.act client action]) { s with processes := Function.update s.processes client process } := by
  refine ⟨(Function.forall_update_iff _ _).mpr ⟨(holds.linked client).act acts, fun other apart => ?_⟩, fun other => ?_,
    fun other token found kept => ?_, holds.handled_snoc nofun⟩
  · refine (holds.linked other).idle ?_ fun _ _ => id
    rw [created_append, created_act, if_neg apart, List.append_nil]
  · rw [created_append, created_act]
    split
    · rename_i same
      apply tokens_taken (holds.tokens other)
      rw [same, ← (holds.linked client).counter]
      exact acts.moves.next
    · rw [List.append_nil]
      exact holds.tokens other
  · obtain ⟨method, listed, same⟩ := holds.stored other token found kept
    exact ⟨method, created_mono listed, same⟩

/-- The server answers for a method: nothing that it has answered for before is forgotten. -/
private theorem Holds.register (holds : Holds pid labels s) (distinct : Function.Injective pid)
    (few : ∀ client, (created client labels).length < 2 ^ 64) {client : Client} {thread : Thread}
    {metadata : ClrProfiling.MethodMetadata} (calling : (s.processes client).threads thread = .calling metadata) :
    Holds pid (labels ++ [.register client metadata]) {
      processes := Function.update s.processes client ((s.processes client).move thread (.answered metadata))
      sessionRegistry := HostIpcService.RegisterMethod s.sessionRegistry (pid client)
        (IpcClient.RegisterMethod metadata) } := by
  have quiet (other : Client) : created other (labels ++ [.register client metadata]) = created other labels :=
    created_quiet nofun other
  have listed : metadata ∈ created client labels := (holds.linked client).staged thread metadata (by rw [calling]; rfl)
  have idle (other : Client) : Linked pid (labels ++ [.register client metadata])
      (HostIpcService.RegisterMethod s.sessionRegistry (pid client) (IpcClient.RegisterMethod metadata)) other
      (s.processes other) := by
    apply (holds.linked other).idle (quiet other)
    intro method member resolves
    rw [resolve_RegisterMethod]
    split
    · rename_i same
      obtain rfl := distinct same.1
      rw [List.inj_on_of_nodup_map (holds.nodup other (few other)) member listed same.2]
    · exact resolves
  refine ⟨(Function.forall_update_iff _ _).mpr ⟨?_, fun other _ => idle other⟩, fun other => ?_,
    fun other token found kept => ?_, holds.handled_snoc nofun⟩
  · refine ⟨(idle client).counter, fun thread' method staged => ?_, fun method acknowledged => ?_, (idle client).sent⟩
    · rcases Process.move_method staged with same | before
      · cases same
        rw [quiet]
        exact listed
      · exact (idle client).staged thread' method before
    · by_cases same : method = metadata
      · rw [same, quiet]
        refine ⟨listed, ?_⟩
        rw [resolve_RegisterMethod, if_pos ⟨rfl, rfl⟩]
      · refine (idle client).known method (Process.move_acknowledged ?_ acknowledged)
        rintro (⟨⟨⟩⟩ | ⟨⟨⟩⟩)
        exact absurd rfl same
  · rw [quiet]
    exact holds.tokens other
  · rw [resolve_RegisterMethod] at kept
    rw [quiet]
    split at kept
    · rename_i same
      obtain rfl := distinct same.1
      exact ⟨metadata, listed, same.2.symm, (Option.some.inj kept).symm⟩
    · exact holds.stored other token found kept

theorem Holds.step (holds : Holds pid labels s) (distinct : Function.Injective pid)
    (few : ∀ client, (created client labels).length < 2 ^ 64) {label : Label Client Thread}
    (step : Step pid s label s') : Holds pid (labels ++ [label]) s' := by
  cases step with
  | act acts => exact holds.act acts
  | register thread calling => exact holds.register distinct few calling
  | request other => exact holds.lookup (by nofun) other (by nofun)
  | handle head => exact holds.handle head

theorem holds_of_run (distinct : Function.Injective pid) (run : Run (Step pid) start labels s)
    (few : ∀ client, (created client labels).length < 2 ^ 64) : Holds pid labels s := by
  refine run.invariant (fun labels s => (∀ client, (created client labels).length < 2 ^ 64) → Holds pid labels s)
    (fun _ => holds_start) (fun labels s label s' holds step few => ?_) few
  have before (client : Client) : (created client labels).length < 2 ^ 64 := by
    have bound := few client
    rw [created_append, List.length_append] at bound
    exact lt_of_le_of_lt (Nat.le_add_right _ _) bound
  exact (holds before).step distinct before step

/-- In every run in which no process registers 2^64 methods, each of them has a token of its
own, and events stand for the methods they come from exactly where the probes can report the
tokens of these. What else an event stands for is a method of the same process. -/
theorem events_resolve_iff (distinct : Function.Injective pid) (run : Run (Step pid) start labels s)
    (few : ∀ client, (created client labels).length < 2 ^ 64) :
    (∀ client, ((created client labels).map (·.token)).Nodup) ∧ (Resolves labels ↔ AllReportable labels) ∧
      ∀ client method message found, .handle client method message (some found) ∈ labels →
        ∃ other ∈ created client labels, other.token = eventToken message ∧ found = image other := by
  have holds := holds_of_run distinct run few
  refine ⟨fun client => holds.nodup client (few client), ⟨?_, ?_⟩, fun client method message found handled => ?_⟩
  · intro resolves client method message resolved handled
    obtain ⟨-, token, -⟩ := resolves client method message resolved handled
    rw [(holds.handled client method message resolved handled).token] at token
    exact (reportedToken_eq_iff method.token).mp token
  · intro reportable client method message resolved member
    have handled := holds.handled client method message resolved member
    have here := reportable client method message resolved member
    exact ⟨handled.listed, handled.token.trans ((reportedToken_eq_iff method.token).mpr here), handled.own here⟩
  · exact (holds.handled client method message (some found) handled).stored found rfl

end Invariant

section Registrations

variable {Client : Type} [DecidableEq Client] {pid : Client → Pid} {client : Client} {s s' : System Client Unit}

/-- The steps by which a method is registered and hooked. -/
def registration (client : Client) (method : ClrProfiling.MethodMetadata) : List (Label Client Unit) :=
  [.act client (.count () method), .act client (.list ()), .act client (.call ()), .register client method,
    .act client (.finish ()), .act client (.hook () method)]

/-- One more step, with the processes that it leaves behind. -/
private theorem stepped {labels : List (Label Client Unit)} {label : Label Client Unit} {process : Process Unit}
    {sessionRegistry : SessionRegistry Unit} (run : Run (Step pid) s labels s')
    (step : Step pid s' label ⟨Function.update s'.processes client process, sessionRegistry⟩) :
    ∃ s'', Run (Step pid) s (labels ++ [label]) s'' ∧ s''.processes = Function.update s'.processes client process :=
  ⟨_, run.snoc step, rfl⟩

/-- A thread with nothing to do can register and hook a method; the other processes stay as they are. -/
private theorem registers (assemblyName typeName signature : WString)
    (idle : (s.processes client).threads () = .idle) :
    ∃ s', Run (Step pid) s (registration client
        ⟨(s.processes client).metadataRegistry.tokenCounter + 1, assemblyName, typeName, signature⟩) s' ∧
      (s'.processes client).threads () = .idle ∧ (s'.processes client).pipe = (s.processes client).pipe ∧
      (s'.processes client).metadataRegistry.tokenCounter = (s.processes client).metadataRegistry.tokenCounter + 1 ∧
      ⟨(s.processes client).metadataRegistry.tokenCounter + 1, assemblyName, typeName, signature⟩ ∈
        (s'.processes client).hooks ∧
      ∀ other, other ≠ client → s'.processes other = s.processes other := by
  let method : ClrProfiling.MethodMetadata :=
    ⟨(s.processes client).metadataRegistry.tokenCounter + 1, assemblyName, typeName, signature⟩
  obtain ⟨s₁, counted, here₁⟩ := stepped .nil (.act (.count assemblyName typeName signature idle))
  have stage₁ : (s₁.processes client).threads () = .counted method := by
    rw [here₁, Function.update_self]
    rfl
  obtain ⟨s₂, listed, here₂⟩ := stepped counted (.act (.list stage₁))
  have stage₂ : (s₂.processes client).threads () = .listed method := by
    rw [here₂, Function.update_self]
    rfl
  obtain ⟨s₃, called, here₃⟩ := stepped listed (.act (.call stage₂))
  have stage₃ : (s₃.processes client).threads () = .calling method := by
    rw [here₃, Function.update_self]
    rfl
  obtain ⟨s₄, answered, here₄⟩ := stepped called (.register () stage₃)
  have stage₄ : (s₄.processes client).threads () = .answered method := by
    rw [here₄, Function.update_self]
    rfl
  obtain ⟨s₅, finished, here₅⟩ := stepped answered (.act (.finish stage₄))
  have stage₅ : (s₅.processes client).threads () = .registered method := by
    rw [here₅, Function.update_self]
    rfl
  obtain ⟨s₆, hooked, here₆⟩ := stepped finished (.act (.hook stage₅))
  simp only [here₅, here₄, here₃, here₂, here₁, Function.update_self, Function.update_idem] at here₆
  refine ⟨s₆, hooked, ?_, ?_, ?_, ?_, fun other apart => ?_⟩
  · rw [here₆, Function.update_self]
    rfl
  · rw [here₆, Function.update_self]
    rfl
  · rw [here₆, Function.update_self]
    rfl
  · rw [here₆, Function.update_self]
    exact List.mem_append_right _ (List.mem_singleton_self _)
  · rw [here₆, Function.update_of_ne apart]

/-- An event of a method, sent and handled. -/
def notification (pid : Client → Pid) (client : Client) (sessionRegistry : SessionRegistry Unit)
    (method : ClrProfiling.MethodMetadata) : List (Label Client Unit) :=
  [.act client (.notify method (.OnMethodEnter (reportedToken method.token) 1)),
    .handle client method (.OnMethodEnter (reportedToken method.token) 1)
      (resolve sessionRegistry (pid client) (reportedToken method.token))]

private theorem notifies {method : ClrProfiling.MethodMetadata} (hooked : method ∈ (s.processes client).hooks)
    (empty : (s.processes client).pipe = []) :
    ∃ s', Run (Step pid) s (notification pid client s.sessionRegistry method) s' ∧
      ∀ other, other ≠ client → s'.processes other = s.processes other := by
  have sent : Run (Step pid) s [.act client (.notify method (.OnMethodEnter (reportedToken method.token) 1))] _ :=
    Run.single (.act (.enter hooked 1))
  have head : (Function.update s.processes client { s.processes client with
      pipe := (s.processes client).pipe ++ [(method, .OnMethodEnter (reportedToken method.token) 1)] } client).pipe =
      (method, .OnMethodEnter (reportedToken method.token) 1) :: [] := by
    rw [Function.update_self, empty]
    rfl
  refine ⟨_, sent.snoc (.handle head), fun other apart => ?_⟩
  dsimp only
  rw [Function.update_of_ne apart, Function.update_of_ne apart]

/-- Two processes. -/
def duo : Bool → Pid := fun client => if client then 1 else 2

/-- The first methods of both have the same token, and each event stands for that of its own process. -/
theorem events_resolve_iff_duo : ∃ (labels : List (Label Bool Unit)) (s : _), Run (Step duo) start labels s ∧
    (∀ client, ∃ method message resolved, .handle client method message resolved ∈ labels) ∧ Resolves labels := by
  obtain ⟨s₁, first, -, empty₁, -, hooked₁, others₁⟩ := @registers Bool _ duo true start (wide "A") [] [] rfl
  have fresh : s₁.processes false = Process.new := others₁ false (by decide)
  obtain ⟨s₂, second, -, empty₂, -, hooked₂, others₂⟩ :=
    @registers Bool _ duo false s₁ (wide "B") [] [] (by rw [fresh]; rfl)
  rw [fresh] at second empty₂ hooked₂
  rw [← others₂ true (by decide)] at empty₁ hooked₁
  obtain ⟨s₃, third, others₃⟩ := notifies hooked₁ empty₁
  rw [← others₃ false (by decide)] at empty₂ hooked₂
  obtain ⟨s₄, fourth, -⟩ := notifies hooked₂ empty₂
  have whole := ((first.append second).append third).append fourth
  refine ⟨_, s₄, whole, fun client => ?_, (events_resolve_iff (by decide) whole fun client => ?_).2.1.mpr ?_⟩
  · cases client with
    | true => exact ⟨_, _, _, List.mem_append_left _
      (List.mem_append_right _ (List.mem_cons_of_mem _ List.mem_cons_self))⟩
    | false => exact ⟨_, _, _, List.mem_append_right _ (List.mem_cons_of_mem _ List.mem_cons_self)⟩
  · simp only [created_append, List.length_append]
    cases client <;> exact (by decide : 1 < 2 ^ 64)
  · -- Both methods have the first token of their process.
    intro client method message resolved handled
    have token : method.token = 1 := by
      simp only [registration, notification, List.mem_append, List.mem_cons, List.not_mem_nil, reduceCtorEq,
        Label.handle.injEq, false_or, or_false] at handled
      rcases handled with ⟨-, rfl, -⟩ | ⟨-, rfl, -⟩
      · rfl
      · rfl
    rw [token]
    exact .inl (by decide)

end Registrations

section Solo

/-- One process, with one thread. -/
def solo : Unit → Pid := fun _ => 1

private theorem registers_many (count : Nat) :
    ∃ (labels : List (Label Unit Unit)) (s : _), Run (Step solo) start labels s ∧
    (s.processes ()).threads () = .idle ∧ (s.processes ()).pipe = [] ∧
    (s.processes ()).metadataRegistry.tokenCounter = UInt64.ofNat count ∧ (created () labels).length = count ∧
    (0 < count → ⟨UInt64.ofNat count, [], [], []⟩ ∈ (s.processes ()).hooks) := by
  induction count with
  | zero => exact ⟨[], start, .nil, rfl, rfl, rfl, rfl, fun none => absurd none (Nat.lt_irrefl 0)⟩
  | succ count ih =>
    obtain ⟨labels, s, run, idle, empty, counter, length, -⟩ := ih
    obtain ⟨s', more, idle', empty', counter', hooked, -⟩ := registers [] [] [] idle
    rw [counter] at more counter' hooked
    rw [UInt64.ofNat_add]
    refine ⟨_, s', run.append more, idle', empty'.trans empty, counter', ?_, fun _ => hooked⟩
    rw [created_append, List.length_append, length]
    rfl

private theorem notifies_last {count : Nat} (some : 0 < count) :
    ∃ (labels : List (Label Unit Unit)) (s : _) (resolved : _),
    Run (Step solo) start labels s ∧ (∀ client, (created client labels).length = count) ∧
      .handle () ⟨UInt64.ofNat count, [], [], []⟩
        (.OnMethodEnter (reportedToken (UInt64.ofNat count)) 1) resolved ∈ labels := by
  obtain ⟨labels, s, run, -, empty, -, length, hooked⟩ := registers_many count
  obtain ⟨s', last, -⟩ := notifies (hooked some) empty
  refine ⟨_, s', resolve s.sessionRegistry 1 (reportedToken (UInt64.ofNat count)), run.append last,
    fun client => ?_, ?_⟩
  · rw [created_append, List.length_append, length]
    rfl
  · exact List.mem_append_right _ (List.mem_cons_of_mem _ (List.mem_singleton_self _))

private theorem reportedToken_late {count : Nat} (late : 2 ^ 31 ≤ count) (early : count < 2 ^ 32) :
    (reportedToken (UInt64.ofNat count)).toNat = 2 ^ 64 - 2 ^ 32 + count := by
  have value : (UInt64.ofNat count).toNat = count := by
    rw [UInt64.toNat_ofNat']
    exact Nat.mod_eq_of_lt (by omega)
  change (BitVec.signExtend 64 (BitVec.ofNat 32 (UInt64.ofNat count).toNat)).toNat = _
  rw [value, BitVec.toNat_signExtend, BitVec.toNat_setWidth, BitVec.msb_eq_decide, BitVec.toNat_ofNat]
  simp only [decide_eq_true_eq]
  split <;> omega

/-- No method has the token that is reported for one behind 2^31 - 1 others. -/
private theorem unresolved_of_late {count : Nat} (late : 2 ^ 31 ≤ count) (early : count < 2 ^ 32) :
    ∃ (labels : List (Label Unit Unit)) (s : _), Run (Step solo) start labels s ∧
      (∀ client, (created client labels).length < 2 ^ 64) ∧
      (∃ method message, .handle () method message none ∈ labels) ∧ ¬Resolves labels := by
  obtain ⟨labels, s, resolved, run, length, member⟩ := notifies_last (show 0 < count by omega)
  have few (client : Unit) : (created client labels).length < 2 ^ 64 := by
    rw [length]
    omega
  have holds := holds_of_run (fun _ _ _ => rfl) run few
  have unresolved : resolved = none := by
    rw [Option.eq_none_iff_forall_ne_some]
    intro found same
    obtain ⟨other, listed, token, -⟩ := (holds.handled _ _ _ _ member).stored found same
    have counted : other.token ∈ (created () labels).map (·.token) := List.mem_map_of_mem listed
    rw [holds.tokens, length] at counted
    obtain ⟨index, small, named⟩ := List.mem_map.mp counted
    have value := congrArg UInt64.toNat (named.trans token)
    rw [UInt64.toNat_ofNat', eventToken, reportedToken_late late early] at value
    have small := List.mem_range.mp small
    omega
  rw [unresolved] at member
  refine ⟨labels, s, run, few, ⟨_, _, member⟩, fun resolves => ?_⟩
  obtain ⟨-, -, none⟩ := resolves _ _ _ _ member
  cases none

/-- The event of the method that is registered behind 2^31 - 1 others resolves to nothing. -/
theorem late_event_unresolved : ∃ (labels : List (Label Unit Unit)) (s : _), Run (Step solo) start labels s ∧
    (∀ client, (created client labels).length < 2 ^ 64) ∧
    (∃ method message, .handle () method message none ∈ labels) ∧ ¬Resolves labels :=
  unresolved_of_late (le_refl (2 ^ 31)) (by norm_num)

end Solo

end System

end Core

end ClrProfiling
