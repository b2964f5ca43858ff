import ClrProfiling.Core.Routing

/-! What the server writes, told from what has happened: the log of a run is one of its history,
whatever the order in which hosts register methods and clients send events. -/

namespace ClrProfiling.Core

open Transition

/-- What a token stands for that resolves to a method, or to none. -/
def describe (token : UInt64) : Option MethodMetadata → Text
  | none => ascii "<Unknown token: " ++ decimal token.toNat ++ ascii ">"
  | some metadata => metadata.TypeName ++ ascii "." ++ metadata.Signature

theorem GetMethodDescription_eq {Callback : Type} (session : ProfilingSession Callback) (token : UInt64) :
    session.GetMethodDescription token = describe token (session.metadataRegistry.ResolveMethodToken token) := by
  unfold ProfilingSession.GetMethodDescription describe
  cases session.metadataRegistry.ResolveMethodToken token with
  | none => rfl
  | some metadata => rfl

/-- The method a token was registered for last. -/
def latest (token : UInt64) (methods : List MethodMetadata) : Option MethodMetadata :=
  (methods.filter (·.Token = token)).getLast?

theorem latest_snoc (token : UInt64) (methods : List MethodMetadata) (method : MethodMetadata) :
    latest token (methods ++ [method]) = if token = method.Token then some method else latest token methods := by
  rw [latest, List.filter_append]
  by_cases same : method.Token = token
  · rw [List.filter_cons_of_pos (by simpa using same), List.filter_nil, List.getLast?_concat, if_pos same.symm]
  · rw [List.filter_cons_of_neg (by simpa using same), List.filter_nil, List.append_nil, if_neg (Ne.symm same), latest]

namespace Network

variable {Channel Address Callback : Type}

/-- The methods the host of a process has had registered. -/
def registeredMethods (pid : Pid) (labels : List (Label Channel Callback)) : List MethodMetadata :=
  labels.filterMap fun
    | .request other request => if other = pid then some (HostIpcService.received request) else none
    | _ => none

/-- The messages a client has sent, its registration first. -/
def sentOn [DecidableEq Channel] (network : Network Channel Address Callback) (channel : Channel)
    (labels : List (Label Channel Callback)) : List Message :=
  labels.filterMap fun
    | .connect other => if other = channel then some (.RegisterClient (network.pid channel)) else none
    | .send other message => if other = channel then some message else none
    | _ => none

/-- The line for an event under the methods registered for its process. -/
def lineFor (methods : List MethodMetadata) : Message → Text
  | .RegisterClient _ => []
  | .OnMethodEnter token threadId =>
    ascii "[Enter - " ++ decimal threadId.toInt ++ ascii "] " ++ describe token (latest token methods)
  | .OnMethodExit token threadId =>
    ascii "[Exit  - " ++ decimal threadId.toInt ++ ascii "] " ++ describe token (latest token methods)

theorem registeredMethods_append (pid : Pid) (first second : List (Label Channel Callback)) :
    registeredMethods pid (first ++ second) = registeredMethods pid first ++ registeredMethods pid second :=
  List.filterMap_append

theorem sentOn_append [DecidableEq Channel] (network : Network Channel Address Callback) (channel : Channel)
    (first second : List (Label Channel Callback)) :
    network.sentOn channel (first ++ second) = network.sentOn channel first ++ network.sentOn channel second :=
  List.filterMap_append

section Log

variable [DecidableEq Channel] [DecidableEq Address] {network : Network Channel Address Callback}
  {labels : List (Label Channel Callback)} {s s' : State Channel Address Callback}

/-- An event that arrives behind a history is handed to the session of the process that has registered last
from its address, and its line says what that process has had registered last for its token. -/
def Told (network : Network Channel Address Callback) (history : List (Label Channel Callback)) :
    Label Channel Callback → Prop
  | .deliver channel message reception => message.IsEvent → ∃ pid session,
    (network.registrations (network.remoteAddress channel) (delivered history)).getLast? = some pid ∧
      session.ClientPid = pid ∧ reception = .handed session (lineFor (registeredMethods pid history) message)
  | _ => True

/-- What a run leaves behind: sessions that hold what was registered, and messages that have arrived
or are in flight. -/
structure Logs (network : Network Channel Address Callback) (labels : List (Label Channel Callback))
    (s : State Channel Address Callback) : Prop where
  resolves : ∀ pid token, (s.service.sessionRegistry.session pid).metadataRegistry.ResolveMethodToken token =
    latest token (registeredMethods pid labels)
  conserved : ∀ channel, network.sentOn channel labels = arrived channel (delivered labels) ++ s.inFlight channel
  told : Along network.Told labels

theorem logs_start : network.Logs [] start := ⟨fun _ _ => rfl, fun _ => rfl, along_nil _⟩

omit [DecidableEq Address] in
private theorem conserved_sent {label : Label Channel Callback} {here : Channel} {message : Message}
    (conserved : ∀ channel, network.sentOn channel labels = arrived channel (delivered labels) ++ s.inFlight channel)
    (sends : ∀ channel, network.sentOn channel [label] = if here = channel then [message] else [])
    (silent : delivered [label] = []) (channel : Channel) :
    network.sentOn channel (labels ++ [label]) = arrived channel (delivered (labels ++ [label])) ++
      Function.update s.inFlight here (s.inFlight here ++ [message]) channel := by
  rw [sentOn_append, conserved, sends, delivered_silent silent]
  by_cases same : here = channel
  · rw [if_pos same, same, Function.update_self, List.append_assoc]
  · rw [if_neg same, Function.update_of_ne (Ne.symm same), List.append_nil]

omit [DecidableEq Channel] in
/-- What a client sends changes nothing that is registered. -/
private theorem receive_metadataRegistry (service : ProfilerService Address Callback)
    (context : OperationContext Address Callback) (message : Message) (pid : Pid) :
    ((service.receive context message).2.sessionRegistry.session pid).metadataRegistry =
      (service.sessionRegistry.session pid).metadataRegistry := by
  have handles (write : ProfilingSession Callback → Text) :
      ((service.handle context write).2.sessionRegistry.session pid).metadataRegistry =
        (service.sessionRegistry.session pid).metadataRegistry := by
    unfold ProfilerService.handle ProfilerService.GetSession
    cases service.clientEndpointToPid context.RemoteAddress with
    | none => rfl
    | some other => exact congrArg _ (SessionRegistry.session_Get ..)
  cases message with
  | RegisterClient other =>
    dsimp only [ProfilerService.receive, ProfilerService.RegisterClient]
    rw [SessionRegistry.session_update]
    split
    · rename_i same
      rw [same]
    · rfl
  | OnMethodEnter token threadId => exact handles _
  | OnMethodExit token threadId => exact handles _

/-- The line of an event, and the session it is handed to. -/
private theorem Logs.told_event (logs : network.Logs labels s) (follows : network.Follows labels s)
    (ordered : network.Ordered labels s) {channel : Channel} {message : Message} {rest : List Message}
    (head : s.inFlight channel = message :: rest) :
    network.Told labels (.deliver channel message (s.service.receive (network.context channel) message).1) := by
  intro event
  have present : network.pid channel ∈ network.registrations (network.remoteAddress channel) (delivered labels) :=
    List.mem_filterMap.mpr ⟨_, ordered.registered head event, if_pos rfl⟩
  obtain ⟨pid, last⟩ := Option.isSome_iff_exists.mp (List.getLast?_isSome.mpr (List.ne_nil_of_mem present))
  have known : s.service.clientEndpointToPid (network.context channel).RemoteAddress = some pid :=
    (follows.known _).trans last
  have handed (write : ProfilingSession Callback → Text) : (s.service.handle (network.context channel) write).1 =
      .handed (s.service.sessionRegistry.session pid) (write (s.service.sessionRegistry.session pid)) := by
    simp only [ProfilerService.handle, ProfilerService.GetSession, known, Option.map_some]
    rfl
  refine ⟨pid, s.service.sessionRegistry.session pid, last, follows.keyed pid, ?_⟩
  have description (token : UInt64) : (s.service.sessionRegistry.session pid).GetMethodDescription token =
      describe token (latest token (registeredMethods pid labels)) := by
    rw [GetMethodDescription_eq, logs.resolves]
  cases message with
  | RegisterClient other => exact event.elim
  | OnMethodEnter token threadId =>
    refine (handed _).trans (congrArg _ ?_)
    rw [ProfilingSession.OnMethodEnter, description, lineFor]
  | OnMethodExit token threadId =>
    refine (handed _).trans (congrArg _ ?_)
    rw [ProfilingSession.OnMethodExit, description, lineFor]

theorem Logs.step {label : Label Channel Callback} (logs : network.Logs labels s) (follows : network.Follows labels s)
    (ordered : network.Ordered labels s) (taken : Step network s label s') : network.Logs (labels ++ [label]) s' := by
  have told : Along network.Told (labels ++ [label]) := by
    refine along_snoc.mpr ⟨logs.told, ?_⟩
    cases taken with
    | connect => trivial
    | send => trivial
    | request => trivial
    | deliver head => exact logs.told_event follows ordered head
  have resolves (pid : Pid) (token : UInt64) := logs.resolves pid token
  cases taken with
  | @connect here fresh =>
    refine ⟨fun pid token => ?_, conserved_sent logs.conserved (fun channel => ?_) rfl, told⟩
    · rw [registeredMethods_append, resolves]
      exact congrArg _ (List.append_nil _).symm
    · by_cases same : here = channel
      · simp [sentOn, same]
      · simp [sentOn, same]
  | @send here message connected event =>
    refine ⟨fun pid token => ?_, conserved_sent logs.conserved (fun channel => ?_) rfl, told⟩
    · rw [registeredMethods_append, resolves]
      exact congrArg _ (List.append_nil _).symm
    · by_cases same : here = channel
      · simp [sentOn, same]
      · simp [sentOn, same]
  | request pid request =>
    refine ⟨fun other token => ?_, fun channel => ?_, told⟩
    · rw [registeredMethods_append]
      change ((HostIpcService.RegisterMethod s.service.sessionRegistry pid request).session
        other).metadataRegistry.ResolveMethodToken token = _
      rw [HostIpcService.session_RegisterMethod]
      by_cases same : other = pid
      · rw [if_pos same, same]
        have added : registeredMethods pid [(.request pid request : Label Channel Callback)] =
            [HostIpcService.received request] := by simp [registeredMethods]
        rw [added, latest_snoc, ← resolves]
        exact MetadataRegistry.ResolveMethodToken_RegisterMethod ..
      · rw [if_neg same]
        have none : registeredMethods other [(.request pid request : Label Channel Callback)] = [] := by
          simp [registeredMethods, Ne.symm same]
        rw [none, List.append_nil, resolves]
    · rw [sentOn_append, delivered_silent (show delivered [.request pid request] = [] from rfl)]
      exact (List.append_nil _).trans (logs.conserved channel)
  | @deliver here message rest head =>
    refine ⟨fun pid token => ?_, fun channel => ?_, told⟩
    · rw [registeredMethods_append, receive_metadataRegistry, resolves]
      exact congrArg _ (List.append_nil _).symm
    · rw [sentOn_append, delivered_append, delivered, delivered, arrived_append, List.append_assoc]
      refine (List.append_nil _).trans ((logs.conserved channel).trans (congrArg (_ ++ ·) ?_))
      dsimp only
      by_cases same : here = channel
      · rw [← same, head, Function.update_self]
        simp [arrived]
      · rw [Function.update_of_ne (Ne.symm same)]
        simp [arrived, same]

theorem logs_of_run (run : Run network.Step start labels s) : network.Logs labels s := by
  induction run with
  | nil => exact logs_start
  | snoc run last ih => exact ih.step (follows_of_run run) (ordered_of_run run) last

/-- The log tells the history: on channels that are taken to keep every message in its place, each event that
arrives is handed to the session of the process that has registered last from its address, with a line that
says what that process has had registered last for its token. No event makes the service fault. -/
theorem log_tells_history (run : Run network.Step start labels s) :
    (∀ channel, network.sentOn channel labels = arrived channel (delivered labels) ++ s.inFlight channel) ∧
      ∀ before channel message reception after, labels = before ++ .deliver channel message reception :: after →
        message.IsEvent → ∃ pid session,
          (network.registrations (network.remoteAddress channel) (delivered before)).getLast? = some pid ∧
            session.ClientPid = pid ∧ reception = .handed session (lineFor (registeredMethods pid before) message) := by
  have logs := logs_of_run run
  exact ⟨logs.conserved, fun before channel message reception after split =>
    logs.told before (.deliver channel message reception) after split⟩

end Log

section Witness

def soleNetwork : Network Unit Unit Unit := ⟨fun _ => (), fun _ => (), fun _ => 7⟩

/-- A client registers, its host has a method registered, and the client sends an event. -/
def soleHistory : List (Label Unit Unit) := [.connect (), .deliver () (.RegisterClient 7) .registered,
  .request 7 ⟨1, ascii "App", ascii "Program", ascii "Main"⟩, .send () (.OnMethodEnter 1 3)]

/-- The line for an event whose method has been registered meanwhile. -/
theorem log_tells_history_sole : ∃ session s, Run soleNetwork.Step start
    (soleHistory ++ [.deliver () (.OnMethodEnter 1 3) (.handed session (ascii "[Enter - 3] Program.Main"))]) s ∧
      session.ClientPid = 7 := by
  obtain ⟨s₁, first, connected, flight⟩ := @registers _ _ _ _ _ soleNetwork start () rfl rfl
  obtain ⟨s₂, second, connected₂, flight₂⟩ : ∃ s₂ : State Unit Unit Unit, Run soleNetwork.Step s₁
      [.request 7 ⟨1, ascii "App", ascii "Program", ascii "Main"⟩] s₂ ∧
        s₂.connected = s₁.connected ∧ s₂.inFlight = s₁.inFlight :=
    ⟨_, Run.single (.request 7 _), rfl, rfl⟩
  have open₂ : s₂.connected () = true := by
    rw [connected₂, connected]
    rfl
  obtain ⟨reception, s₃, third⟩ := @notifies _ _ _ _ _ soleNetwork s₂ () (.OnMethodEnter 1 3) open₂
    ((congrFun flight₂ ()).trans (congrFun flight ())) trivial
  obtain ⟨-, told⟩ := log_tells_history ((first.append second).append third)
  obtain ⟨pid, session, last, client, rfl⟩ := told soleHistory () _ _ [] rfl trivial
  obtain rfl : 7 = pid := Option.some.inj last
  have line : lineFor (registeredMethods 7 soleHistory) (.OnMethodEnter 1 3) = ascii "[Enter - 3] Program.Main" := by
    decide +kernel
  rw [← line]
  exact ⟨session, s₃, (first.append second).append third, client⟩

end Witness

end Network

end ClrProfiling.Core
