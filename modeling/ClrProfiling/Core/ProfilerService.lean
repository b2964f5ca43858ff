import ClrProfiling.Core.ProfilingSession
import ClrProfiling.Foundation.Transition

/-! The service the profiled processes send their events to: which session an event comes to,
over all orders in which the messages of their channels may arrive. -/

namespace ClrProfiling.Core

open Transition

/-- What the channel of the current operation tells: the address of the client, and the way back to it. -/
structure OperationContext (Address Callback : Type) where
  RemoteAddress : Address
  callbackChannel : Callback

structure ProfilerService (Address Callback : Type) where
  sessionRegistry : SessionRegistry Callback
  clientEndpointToPid : Address → Option Pid

/-- The messages of a client. -/
inductive Message where
  | RegisterClient (pid : Pid)
  | OnMethodEnter (methodToken : UInt64) (threadId : Int32)
  | OnMethodExit (methodToken : UInt64) (threadId : Int32)
deriving DecidableEq, Repr

/-- What comes of a message: an event is handed to a session, which writes a line, or the
dictionary throws. -/
inductive Reception (Callback : Type) where
  | registered
  | handed (session : ProfilingSession Callback) (line : Text)
  | faulted

def Message.IsEvent : Message → Prop
  | .RegisterClient _ => False
  | .OnMethodEnter _ _ => True
  | .OnMethodExit _ _ => True

namespace ProfilerService

variable {Address Callback : Type} [DecidableEq Address]

def new (sessionRegistry : SessionRegistry Callback) : ProfilerService Address Callback :=
    ⟨sessionRegistry, fun _ => none⟩

def RegisterClient (service : ProfilerService Address Callback)
    (context : OperationContext Address Callback) (pid : Pid) :
    ProfilerService Address Callback where
  clientEndpointToPid := Function.update service.clientEndpointToPid context.RemoteAddress (some pid)
  sessionRegistry := service.sessionRegistry.update pid fun session =>
    { session with ProfilerServiceCallback := some context.callbackChannel }

/-- The dictionary throws for an address it does not have. -/
def GetSession (service : ProfilerService Address Callback) (context : OperationContext Address Callback) :
    Option (ProfilingSession Callback × ProfilerService Address Callback) :=
  (service.clientEndpointToPid context.RemoteAddress).map fun pid =>
    let (session, sessionRegistry) := service.sessionRegistry.Get pid
    (session, { service with sessionRegistry })

/-- An event for the session of its sender. -/
def handle (service : ProfilerService Address Callback) (context : OperationContext Address Callback)
    (write : ProfilingSession Callback → Text) : Reception Callback × ProfilerService Address Callback :=
  match service.GetSession context with
  | none => (.faulted, service)
  | some (session, service) => (.handed session (write session), service)

def OnMethodEnter (service : ProfilerService Address Callback) (context : OperationContext Address Callback)
    (methodToken : UInt64) (threadId : Int32) : Reception Callback × ProfilerService Address Callback :=
  service.handle context (·.OnMethodEnter methodToken threadId)

def OnMethodExit (service : ProfilerService Address Callback) (context : OperationContext Address Callback)
    (methodToken : UInt64) (threadId : Int32) : Reception Callback × ProfilerService Address Callback :=
  service.handle context (·.OnMethodExit methodToken threadId)

def receive (service : ProfilerService Address Callback) (context : OperationContext Address Callback) :
    Message → Reception Callback × ProfilerService Address Callback
  | .RegisterClient pid => (.registered, service.RegisterClient context pid)
  | .OnMethodEnter methodToken threadId => service.OnMethodEnter context methodToken threadId
  | .OnMethodExit methodToken threadId => service.OnMethodExit context methodToken threadId

/-- Every session is that of the process it is kept for. -/
def Keyed (registry : SessionRegistry Callback) : Prop := ∀ pid, (registry.session pid).ClientPid = pid

theorem keyed_new : Keyed (SessionRegistry.new : SessionRegistry Callback) := fun _ => rfl

theorem Keyed.update {registry : SessionRegistry Callback} (keyed : Keyed registry) (pid : Pid)
    (change : ProfilingSession Callback → ProfilingSession Callback)
    (same : ∀ session, (change session).ClientPid = session.ClientPid) : Keyed (registry.update pid change) := by
  intro other
  rw [SessionRegistry.session_update]
  split
  · rename_i here
    rw [same, keyed, here]
  · exact keyed other

variable {service : ProfilerService Address Callback}

/-- An event comes to the session of the process that is registered for its address. -/
theorem receive_event (context : OperationContext Address Callback) (keyed : Keyed service.sessionRegistry)
    {message : Message} (event : message.IsEvent) :
    (service.receive context message).2.clientEndpointToPid = service.clientEndpointToPid ∧
      Keyed (service.receive context message).2.sessionRegistry ∧
      ∀ pid, (∃ session line, (service.receive context message).1 = .handed session line ∧ session.ClientPid = pid) ↔
        service.clientEndpointToPid context.RemoteAddress = some pid := by
  have handles (write : ProfilingSession Callback → Text) :
      (service.handle context write).2.clientEndpointToPid = service.clientEndpointToPid ∧
        Keyed (service.handle context write).2.sessionRegistry ∧
        ∀ pid, (∃ session line, (service.handle context write).1 = .handed session line ∧ session.ClientPid = pid) ↔
          service.clientEndpointToPid context.RemoteAddress = some pid := by
    rcases known : service.clientEndpointToPid context.RemoteAddress with _ | pid
    · have none : service.GetSession context = none := by rw [GetSession, known, Option.map_none]
      rw [handle, none]
      exact ⟨rfl, keyed, fun _ => iff_of_false (by rintro ⟨_, _, ⟨⟩, _⟩) nofun⟩
    · have some : service.GetSession context = some (service.sessionRegistry.session pid,
          { service with sessionRegistry := service.sessionRegistry.update pid id }) := by
        rw [GetSession, known, Option.map_some]
        rfl
      rw [handle, some]
      refine ⟨rfl, keyed.update pid id fun _ => rfl, fun other => ?_⟩
      rw [Option.some_inj]
      constructor
      · rintro ⟨_, _, handed, client⟩
        cases handed
        exact (keyed pid).symm.trans client
      · rintro rfl
        exact ⟨_, _, rfl, keyed pid⟩
  cases message with
  | RegisterClient => exact event.elim
  | OnMethodEnter methodToken threadId => exact handles _
  | OnMethodExit methodToken threadId => exact handles _

end ProfilerService

end ClrProfiling.Core
