import ClrProfiling.Core.ProfilerService

/-! The network of profiled processes, each with a channel to the one service, and the
sessions their events come to. -/

namespace ClrProfiling.Core

open Transition

/-- The channels: what each reports to the service, and the process at its other end. -/
structure Network (Channel Address Callback : Type) where
  remoteAddress : Channel → Address
  callbackChannel : Channel → Callback
  pid : Channel → Pid

variable {Channel Address Callback : Type}

namespace Network

/-- `inFlight` are the messages on a channel that have not arrived, the oldest first. -/
structure State (Channel Address Callback : Type) where
  service : ProfilerService Address Callback
  connected : Channel → Bool
  inFlight : Channel → List Message

inductive Label (Channel Callback : Type) where
  | connect (channel : Channel)
  | send (channel : Channel) (message : Message)
  | deliver (channel : Channel) (message : Message) (reception : Reception Callback)
  | request (pid : Pid) (request : MethodMetadataMsg)

def start : State Channel Address Callback where
  service := ProfilerService.new SessionRegistry.new
  connected _ := false
  inFlight _ := []

def context (network : Network Channel Address Callback) (channel : Channel) : OperationContext Address Callback :=
  ⟨network.remoteAddress channel, network.callbackChannel channel⟩

section Definitions

variable [DecidableEq Channel] [DecidableEq Address]

/-- A client registers when it is made, and sends events from then on. Messages arrive in the
order of their channel; the hosts have the sessions changed meanwhile. -/
inductive Step (network : Network Channel Address Callback) :
    State Channel Address Callback → Label Channel Callback → State Channel Address Callback → Prop
  | connect (fresh : s.connected channel = false) : Step network s (.connect channel) { s with
      connected := Function.update s.connected channel true
      inFlight := Function.update s.inFlight channel (s.inFlight channel ++ [.RegisterClient (network.pid channel)]) }
  | send (connected : s.connected channel = true) (event : message.IsEvent) :
    Step network s (.send channel message) { s with
      inFlight := Function.update s.inFlight channel (s.inFlight channel ++ [message]) }
  | deliver {channel : Channel} {message : Message} {rest : List Message}
    (head : s.inFlight channel = message :: rest) :
    Step network s (.deliver channel message (s.service.receive (network.context channel) message).1) { s with
      service := (s.service.receive (network.context channel) message).2
      inFlight := Function.update s.inFlight channel rest }
  | request (pid : Pid) (request : MethodMetadataMsg) : Step network s (.request pid request) { s with
      service := { s.service with
        sessionRegistry := HostIpcService.RegisterMethod s.service.sessionRegistry pid request } }

/-- The messages that have arrived, in their order. -/
def delivered : List (Label Channel Callback) → List (Channel × Message)
  | [] => []
  | .deliver channel message _ :: rest => (channel, message) :: delivered rest
  | _ :: rest => delivered rest

/-- The processes that have registered from an address, in their order. -/
def registrations (network : Network Channel Address Callback) (address : Address)
    (messages : List (Channel × Message)) :
    List Pid :=
  messages.filterMap fun
    | (channel, .RegisterClient pid) => if network.remoteAddress channel = address then some pid else none
    | _ => none

/-- The messages that have arrived on one channel. -/
def arrived (channel : Channel) (messages : List (Channel × Message)) : List Message :=
  messages.filterMap fun (other, message) => if other = channel then some message else none

end Definitions

/-- An event came to the session of the process it was sent from. -/
def Routed (network : Network Channel Address Callback) (channel : Channel) (reception : Reception Callback) : Prop :=
  ∃ session line, reception = .handed session line ∧ session.ClientPid = network.pid channel

/-- Every event of a run came to the session of the process it was sent from. -/
def AllRouted (network : Network Channel Address Callback) (labels : List (Label Channel Callback)) : Prop :=
  ∀ channel message reception, .deliver channel message reception ∈ labels → message.IsEvent →
    network.Routed channel reception

/-- When an event arrives, the last process that has registered from its address is the one that sent it. -/
def Undisturbed [DecidableEq Address] (network : Network Channel Address Callback)
    (messages : List (Channel × Message)) : Prop :=
  ∀ before channel message after, messages = before ++ (channel, message) :: after → message.IsEvent →
    (network.registrations (network.remoteAddress channel) before).getLast? = some (network.pid channel)

section Histories

theorem delivered_append (first second : List (Label Channel Callback)) :
    delivered (first ++ second) = delivered first ++ delivered second := by
  induction first with
  | nil => rfl
  | cons label rest ih => cases label <;> simp [delivered, ih]

theorem delivered_silent {labels : List (Label Channel Callback)} {label : Label Channel Callback}
    (silent : delivered [label] = []) : delivered (labels ++ [label]) = delivered labels := by
  rw [delivered_append, silent, List.append_nil]

theorem registrations_append [DecidableEq Address] (network : Network Channel Address Callback) (address : Address)
    (first second : List (Channel × Message)) :
    network.registrations address (first ++ second) =
      network.registrations address first ++ network.registrations address second := List.filterMap_append

theorem undisturbed_snoc [DecidableEq Address] (network : Network Channel Address Callback)
    {messages : List (Channel × Message)}
    {channel : Channel} {message : Message} : network.Undisturbed (messages ++ [(channel, message)]) ↔
      network.Undisturbed messages ∧ (message.IsEvent →
        (network.registrations (network.remoteAddress channel) messages).getLast? = some (network.pid channel)) := by
  constructor
  · intro undisturbed
    refine ⟨fun before channel' message' after split event => ?_, fun event => undisturbed messages _ _ [] rfl event⟩
    refine undisturbed before channel' message' (after ++ [(channel, message)]) ?_ event
    rw [split, List.append_assoc, List.cons_append]
  · rintro ⟨undisturbed, last⟩ before channel' message' after split event
    rcases after.eq_nil_or_concat with rfl | ⟨others, final, rfl⟩
    · obtain ⟨rfl, same⟩ := List.append_inj' split rfl
      cases same
      exact last event
    · rw [List.concat_eq_append, ← List.cons_append, ← List.append_assoc] at split
      obtain ⟨rfl, -⟩ := List.append_inj' split rfl
      exact undisturbed before channel' message' others rfl event

theorem allRouted_snoc (network : Network Channel Address Callback) {labels : List (Label Channel Callback)}
    {label : Label Channel Callback} : network.AllRouted (labels ++ [label]) ↔ network.AllRouted labels ∧
      ∀ channel message reception, label = .deliver channel message reception → message.IsEvent →
        network.Routed channel reception := by
  constructor
  · intro routed
    refine ⟨fun channel message reception member => ?_, fun channel message reception same => ?_⟩
    · exact routed channel message reception (List.mem_append_left _ member)
    · exact routed channel message reception (List.mem_append_right _ (same ▸ List.mem_singleton_self _))
  · rintro ⟨earlier, last⟩ channel message reception member
    rcases List.mem_append.mp member with member | member
    · exact earlier channel message reception member
    · exact last channel message reception (List.mem_singleton.mp member).symm

end Histories

section Exactness

variable [DecidableEq Address]

/-- What a run leaves behind: the dictionary has the last registration from every address, and
the events went where it says. -/
structure Follows (network : Network Channel Address Callback) (labels : List (Label Channel Callback))
    (s : State Channel Address Callback) : Prop where
  keyed : ProfilerService.Keyed s.service.sessionRegistry
  known : ∀ address, s.service.clientEndpointToPid address =
    (network.registrations address (delivered labels)).getLast?
  routed : network.AllRouted labels ↔ network.Undisturbed (delivered labels)

variable {network : Network Channel Address Callback} {labels : List (Label Channel Callback)}
  {s s' : State Channel Address Callback}

theorem follows_start : network.Follows [] start where
  keyed := ProfilerService.keyed_new
  known _ := rfl
  routed := iff_of_true (fun _ _ _ none => nomatch none) fun before _ _ _ split =>
    absurd split.symm (by simp [delivered])

private theorem Follows.silent {label : Label Channel Callback} (follows : network.Follows labels s)
    (silent : delivered [label] = []) (keyed : ProfilerService.Keyed s'.service.sessionRegistry)
    (same : s'.service.clientEndpointToPid = s.service.clientEndpointToPid) :
    network.Follows (labels ++ [label]) s' := by
  refine ⟨keyed, fun address => ?_, ?_⟩
  · rw [same, delivered_silent silent]
    exact follows.known address
  · rw [allRouted_snoc, delivered_silent silent, follows.routed, and_iff_left]
    rintro channel message reception rfl
    exact absurd silent (List.cons_ne_nil _ _)

/-- A client is registered for its address. -/
private theorem Follows.registered (follows : network.Follows labels s) (channel : Channel) (pid : Pid)
    (inFlight : Channel → List Message) :
    network.Follows (labels ++ [.deliver channel (.RegisterClient pid) .registered])
      { s with service := s.service.RegisterClient (network.context channel) pid, inFlight } where
  keyed := follows.keyed.update pid (fun session => { session with ProfilerServiceCallback := _ }) fun _ => rfl
  known address := by
    rw [delivered_append, registrations_append]
    change Function.update s.service.clientEndpointToPid (network.remoteAddress channel) (some pid) address = _
    rw [Function.update_apply]
    by_cases here : address = network.remoteAddress channel
    · rw [if_pos here, here, delivered, delivered, registrations, registrations]
      simp
    · have other : network.registrations address [(channel, .RegisterClient pid)] = [] := by
        simp [registrations, Ne.symm here]
      rw [if_neg here, delivered, delivered, other, List.append_nil]
      exact follows.known address
  routed := by
    rw [allRouted_snoc, delivered_append, delivered, delivered, undisturbed_snoc, follows.routed]
    refine and_congr_right fun _ => iff_of_true ?_ nofun
    rintro _ _ _ ⟨⟩ event
    exact event.elim

/-- An event is handed to a session. -/
private theorem Follows.event (follows : network.Follows labels s) (channel : Channel) {message : Message}
    (event : message.IsEvent) (inFlight : Channel → List Message) :
    network.Follows (labels ++ [.deliver channel message (s.service.receive (network.context channel) message).1])
      { s with service := (s.service.receive (network.context channel) message).2, inFlight } := by
  obtain ⟨same, keyed, handed⟩ := ProfilerService.receive_event (network.context channel) follows.keyed event
  refine ⟨keyed, fun address => ?_, ?_⟩
  · have none : network.registrations address [(channel, message)] = [] := by
      cases message with
      | RegisterClient => exact event.elim
      | OnMethodEnter => rfl
      | OnMethodExit => rfl
    rw [delivered_append, delivered, delivered, registrations_append, none, List.append_nil]
    exact (congrFun same address).trans (follows.known address)
  · rw [allRouted_snoc, delivered_append, delivered, delivered, undisturbed_snoc, follows.routed]
    apply and_congr_right
    intro _
    rw [← follows.known]
    refine Iff.trans ⟨fun last _ => ?_, fun routed => ?_⟩ (imp_congr_right fun _ => handed (network.pid channel))
    · exact last channel message _ rfl event
    · rintro _ _ _ ⟨⟩ -
      exact routed event

variable [DecidableEq Channel]

theorem Follows.step {label : Label Channel Callback} (follows : network.Follows labels s)
    (taken : Step network s label s') : network.Follows (labels ++ [label]) s' := by
  cases taken with
  | connect => exact follows.silent rfl follows.keyed rfl
  | send => exact follows.silent rfl follows.keyed rfl
  | request pid request => exact follows.silent rfl (follows.keyed.update pid (·.RegisterMethod _) fun _ => rfl) rfl
  | @deliver channel message rest head =>
    by_cases event : message.IsEvent
    · exact follows.event channel event _
    · cases message with
      | RegisterClient pid => exact follows.registered channel pid _
      | OnMethodEnter => exact absurd trivial event
      | OnMethodExit => exact absurd trivial event

theorem follows_of_run (run : Run network.Step start labels s) : network.Follows labels s :=
  run.invariant _ follows_start fun _ _ _ _ follows taken => follows.step taken

end Exactness

section Order

variable [DecidableEq Channel] {network : Network Channel Address Callback} {labels : List (Label Channel Callback)}
  {s s' : State Channel Address Callback}

/-- The messages of a client, arrived and in flight: it registers, and sends nothing but events from then on. -/
def Ordered (network : Network Channel Address Callback) (labels : List (Label Channel Callback))
    (s : State Channel Address Callback) : Prop :=
  ∀ channel, s.connected channel = false ∧ arrived channel (delivered labels) ++ s.inFlight channel = [] ∨
    s.connected channel = true ∧ ∃ events : List Message,
      arrived channel (delivered labels) ++ s.inFlight channel = .RegisterClient (network.pid channel) :: events ∧
        ∀ message ∈ events, message.IsEvent

theorem arrived_append (channel : Channel) (first second : List (Channel × Message)) :
    arrived channel (first ++ second) = arrived channel first ++ arrived channel second := List.filterMap_append

theorem ordered_start : network.Ordered [] start := fun _ => .inl ⟨rfl, rfl⟩

private theorem Ordered.own (ordered : network.Ordered labels s) {channel : Channel} {pid : Pid}
    (arrival : (channel, .RegisterClient pid) ∈ delivered labels) : pid = network.pid channel := by
  have present : .RegisterClient pid ∈ arrived channel (delivered labels) ++ s.inFlight channel :=
    List.mem_append_left _ (List.mem_filterMap.mpr ⟨_, arrival, if_pos rfl⟩)
  rcases ordered channel with ⟨-, none⟩ | ⟨-, events, history, all⟩
  · rw [none] at present
    cases present
  · rw [history] at present
    rcases List.mem_cons.mp present with same | later
    · exact Message.RegisterClient.inj same
    · exact (all _ later).elim

/-- In front of an event its client has registered. -/
theorem Ordered.registered (ordered : network.Ordered labels s) {channel : Channel} {message : Message}
    {rest : List Message} (head : s.inFlight channel = message :: rest) (event : message.IsEvent) :
    (channel, .RegisterClient (network.pid channel)) ∈ delivered labels := by
  rcases ordered channel with ⟨-, none⟩ | ⟨-, events, history, -⟩
  · rw [head] at none
    exact absurd none (by simp)
  · rw [head] at history
    rcases before : arrived channel (delivered labels) with _ | ⟨first, others⟩
    · rw [before] at history
      cases history
      exact event.elim
    · rw [before] at history
      cases history
      have present : .RegisterClient (network.pid channel) ∈ arrived channel (delivered labels) := by
        rw [before]
        exact List.mem_cons_self
      obtain ⟨⟨other, message'⟩, arrival, same⟩ := List.mem_filterMap.mp present
      dsimp only at same
      split at same
      · rename_i here
        cases same
        rwa [here] at arrival
      · cases same

variable [DecidableEq Address]

theorem Ordered.step {label : Label Channel Callback} (ordered : network.Ordered labels s)
    (taken : Step network s label s') : network.Ordered (labels ++ [label]) s' := by
  intro channel
  have before := ordered channel
  cases taken with
  | @connect here fresh =>
    rw [delivered_silent (show delivered [.connect here] = [] from rfl)]
    by_cases same : channel = here
    · rw [same] at before ⊢
      obtain ⟨-, none⟩ := before.resolve_right fun later => absurd (fresh.symm.trans later.1) (by decide)
      refine .inr ⟨Function.update_self .., [], ?_, nofun⟩
      dsimp only
      rw [Function.update_self, ← List.append_assoc, none, List.nil_append]
    · dsimp only
      rwa [Function.update_of_ne same, Function.update_of_ne same]
  | @send here message connected event =>
    rw [delivered_silent (show delivered [.send here message] = [] from rfl)]
    by_cases same : channel = here
    · rw [same] at before ⊢
      obtain ⟨-, events, history, all⟩ := before.resolve_left fun early =>
        absurd (early.1.symm.trans connected) (by decide)
      refine .inr ⟨connected, events ++ [message], ?_, ?_⟩
      · dsimp only
        rw [Function.update_self, ← List.append_assoc, history, List.cons_append]
      · exact List.forall_mem_append.mpr ⟨all, List.forall_mem_singleton.mpr event⟩
    · dsimp only
      rwa [Function.update_of_ne same]
  | request pid request =>
    rw [delivered_silent (show delivered [.request pid request] = [] from rfl)]
    exact before
  | @deliver here message rest head =>
    have history : arrived channel (delivered labels ++ [(here, message)]) ++
      Function.update s.inFlight here rest channel =
        arrived channel (delivered labels) ++ s.inFlight channel := by
      rw [arrived_append, List.append_assoc]
      refine congrArg (_ ++ ·) ?_
      by_cases same : channel = here
      · rw [same, Function.update_self, head]
        simp [arrived]
      · rw [Function.update_of_ne same]
        simp [arrived, Ne.symm same]
    rw [delivered_append, delivered, delivered]
    dsimp only
    rwa [history]

theorem ordered_of_run (run : Run network.Step start labels s) : network.Ordered labels s :=
  run.invariant _ ordered_start fun _ _ _ _ ordered taken => ordered.step taken

/-- Where an address belongs to one process, no other registers between a client and its events. -/
private theorem undisturbed_of_run (one : ∀ channel other,
    network.remoteAddress channel = network.remoteAddress other → network.pid channel = network.pid other)
    (run : Run network.Step start labels s) : network.Undisturbed (delivered labels) := by
  refine (run.invariant (fun labels s => network.Ordered labels s ∧ network.Undisturbed (delivered labels))
    ⟨ordered_start, ?_⟩ ?_).2
  · exact fun before _ _ _ split => absurd split.symm (by simp [delivered])
  · rintro labels s label s' ⟨ordered, undisturbed⟩ taken
    refine ⟨ordered.step taken, ?_⟩
    cases taken with
    | @connect here => rwa [delivered_silent (show delivered [.connect here] = [] from rfl)]
    | @send here message => rwa [delivered_silent (show delivered [.send here message] = [] from rfl)]
    | request pid request => rwa [delivered_silent (show delivered [.request pid request] = [] from rfl)]
    | @deliver channel message rest head =>
      rw [delivered_append, delivered, delivered, undisturbed_snoc]
      refine ⟨undisturbed, fun event => ?_⟩
      have present : network.pid channel ∈ network.registrations (network.remoteAddress channel) (delivered labels) :=
        List.mem_filterMap.mpr ⟨_, ordered.registered head event, if_pos rfl⟩
      obtain ⟨last, ends⟩ := Option.isSome_iff_exists.mp (List.getLast?_isSome.mpr (List.ne_nil_of_mem present))
      obtain ⟨⟨other, message'⟩, arrival, same⟩ := List.mem_filterMap.mp (List.mem_of_getLast? ends)
      rw [ends, Option.some_inj]
      cases message' with
      | RegisterClient pid =>
        dsimp only at same
        split at same
        · rename_i here
          cases same
          rw [ordered.own arrival]
          exact one other channel here
        · cases same
      | OnMethodEnter => cases same
      | OnMethodExit => cases same

end Order

section Routing

variable [DecidableEq Channel] [DecidableEq Address] {network : Network Channel Address Callback}

/-- A client connects, and its registration arrives. -/
theorem registers {s : State Channel Address Callback} {channel : Channel} (fresh : s.connected channel = false)
    (empty : s.inFlight channel = []) : ∃ s', Run network.Step s
      [.connect channel, .deliver channel (.RegisterClient (network.pid channel)) .registered] s' ∧
        s'.connected = Function.update s.connected channel true ∧ s'.inFlight = s.inFlight := by
  have connected : Run network.Step s [.connect channel] _ := Run.single (.connect fresh)
  have head : Function.update s.inFlight channel
    (s.inFlight channel ++ [.RegisterClient (network.pid channel)]) channel =
      [.RegisterClient (network.pid channel)] := by
    rw [Function.update_self, empty, List.nil_append]
  refine ⟨_, connected.snoc (.deliver head), rfl, ?_⟩
  dsimp only
  rw [Function.update_idem, ← empty, Function.update_eq_self]

theorem notifies {s : State Channel Address Callback} {channel : Channel} {message : Message}
    (connected : s.connected channel = true) (empty : s.inFlight channel = []) (event : message.IsEvent) :
    ∃ reception s', Run network.Step s [.send channel message, .deliver channel message reception] s' := by
  have sent : Run network.Step s [.send channel message] _ := Run.single (.send connected event)
  have head : Function.update s.inFlight channel (s.inFlight channel ++ [message]) channel = [message] := by
    rw [Function.update_self, empty, List.nil_append]
  exact ⟨_, _, sent.snoc (.deliver head)⟩

/-- Two processes behind one address: the one that registers first has its event handed to the other. -/
private theorem exists_misrouted (channel other : Channel)
    (same : network.remoteAddress channel = network.remoteAddress other)
    (different : network.pid channel ≠ network.pid other) :
    ∃ labels s, Run network.Step start labels s ∧ ¬network.AllRouted labels := by
  have apart : other ≠ channel := fun equal => different (congrArg network.pid equal.symm)
  obtain ⟨s₁, first, connected₁, flight₁⟩ := @registers _ _ _ _ _ network start channel rfl rfl
  have fresh : s₁.connected other = false := by
    rw [connected₁, Function.update_of_ne apart]
    rfl
  obtain ⟨s₂, second, connected₂, flight₂⟩ := @registers _ _ _ _ _ network s₁ other fresh (congrFun flight₁ other)
  have connected : s₂.connected channel = true := by
    rw [connected₂, Function.update_of_ne apart.symm, connected₁, Function.update_self]
  have event : (Message.OnMethodEnter 1 1).IsEvent := trivial
  obtain ⟨reception, s₃, third⟩ := @notifies _ _ _ _ _ network s₂ channel _ connected
    ((congrFun flight₂ channel).trans (congrFun flight₁ channel)) event
  have run := (first.append second).append third
  refine ⟨_, s₃, run, fun routed => ?_⟩
  have undisturbed := (follows_of_run run).routed.mp routed
  have last := undisturbed [(channel, .RegisterClient (network.pid channel)),
    (other, .RegisterClient (network.pid other))]
    channel _ [] rfl event
  simp [registrations, same] at last
  exact different last.symm

/-- The events of a run come to the sessions of their senders exactly where no other process
registers from the address of a client in front of its events; and that is so in every run
exactly where no two processes have channels of one address. -/
theorem events_routed_iff (network : Network Channel Address Callback) :
    (∀ labels s, Run network.Step start labels s →
      (network.AllRouted labels ↔ network.Undisturbed (delivered labels))) ∧
      ((∀ labels s, Run network.Step start labels s → network.AllRouted labels) ↔
        ∀ channel other, network.remoteAddress channel = network.remoteAddress other →
          network.pid channel = network.pid other) := by
  refine ⟨fun labels s run => (follows_of_run run).routed, fun routed channel other same =>
    ?_, fun one labels s run => ?_⟩
  · by_contra different
    obtain ⟨labels, s, run, misrouted⟩ := exists_misrouted channel other same different
    exact misrouted (routed labels s run)
  · exact (follows_of_run run).routed.mpr (undisturbed_of_run one run)

/-- Two processes whose pipes report the anonymous address. -/
def anonymous : Network Bool Unit Unit where
  remoteAddress _ := ()
  callbackChannel _ := ()
  pid second := if second then 2 else 1

theorem anonymous_misrouted : ∃ labels s, Run anonymous.Step start labels s ∧ ¬anonymous.AllRouted labels :=
  exists_misrouted false true rfl (by decide)

end Routing

end Network

end ClrProfiling.Core
