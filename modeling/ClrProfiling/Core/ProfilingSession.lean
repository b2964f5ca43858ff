import ClrProfiling.Host.IpcClient

/-! The sessions of the server, one for every process, and the service that the hosts call. -/

namespace ClrProfiling.Core

/-- A process identifier, an `int`. -/
abbrev Pid := Int32

/-- A string in the wire format. -/
abbrev Text := List UInt8

def ascii (text : String) : Text := text.toList.map fun char => UInt8.ofNat char.toNat

/-- A number as it is interpolated. -/
def decimal (value : Int) : Text := ascii (toString value)

structure MethodMetadata where
  Token : UInt64
  AssemblyName : Text
  TypeName : Text
  Signature : Text
deriving DecidableEq, Repr

structure MetadataRegistry where
  methodMetadatas : UInt64 → Option MethodMetadata

namespace MetadataRegistry

def new : MetadataRegistry := ⟨fun _ => none⟩

def RegisterMethod (registry : MetadataRegistry) (method : MethodMetadata) : MetadataRegistry :=
  { registry with methodMetadatas := Function.update registry.methodMetadatas method.Token (some method) }

def ResolveMethodToken (registry : MetadataRegistry) (token : UInt64) : Option MethodMetadata :=
  registry.methodMetadatas token

@[simp] theorem ResolveMethodToken_new (token : UInt64) : new.ResolveMethodToken token = none := rfl

theorem ResolveMethodToken_RegisterMethod (registry : MetadataRegistry) (method : MethodMetadata) (token : UInt64) :
    (registry.RegisterMethod method).ResolveMethodToken token =
      if token = method.Token then some method else registry.ResolveMethodToken token :=
  Function.update_apply registry.methodMetadatas method.Token (some method) token

end MetadataRegistry

/-- `Callback` is the channel back to the client. -/
structure ProfilingSession (Callback : Type) where
  ProfilerServiceCallback : Option Callback
  ClientPid : Pid
  metadataRegistry : MetadataRegistry

variable {Callback : Type}

namespace ProfilingSession

def new (clientPid : Pid) : ProfilingSession Callback := ⟨none, clientPid, MetadataRegistry.new⟩

def RegisterMethod (session : ProfilingSession Callback) (method : MethodMetadata) : ProfilingSession Callback :=
  { session with metadataRegistry := session.metadataRegistry.RegisterMethod method }

def GetMethodDescription (session : ProfilingSession Callback) (token : UInt64) : Text :=
  match session.metadataRegistry.ResolveMethodToken token with
  | none => ascii "<Unknown token: " ++ decimal token.toNat ++ ascii ">"
  | some metadata => metadata.TypeName ++ ascii "." ++ metadata.Signature

/-- The line written for a method that is entered. -/
def OnMethodEnter (session : ProfilingSession Callback) (token : UInt64) (threadId : Int32) : Text :=
  ascii "[Enter - " ++ decimal threadId.toInt ++ ascii "] " ++ session.GetMethodDescription token

/-- The line written for a method that is left. -/
def OnMethodExit (session : ProfilingSession Callback) (token : UInt64) (threadId : Int32) : Text :=
  ascii "[Exit  - " ++ decimal threadId.toInt ++ ascii "] " ++ session.GetMethodDescription token

end ProfilingSession

structure SessionRegistry (Callback : Type) where
  sessions : Pid → Option (ProfilingSession Callback)

namespace SessionRegistry

def new : SessionRegistry Callback := ⟨fun _ => none⟩

/-- The session of a process, new where there is none. -/
def session (registry : SessionRegistry Callback) (clientPid : Pid) : ProfilingSession Callback :=
  (registry.sessions clientPid).getD (ProfilingSession.new clientPid)

/-- What becomes of the registry when the session of a process is asked for and changed. -/
def update (registry : SessionRegistry Callback) (clientPid : Pid)
    (change : ProfilingSession Callback → ProfilingSession Callback) : SessionRegistry Callback :=
  { registry with sessions := Function.update registry.sessions clientPid (some (change (registry.session clientPid))) }

/-- The session `GetOrAdd` hands out, and the registry behind it. -/
def Get (registry : SessionRegistry Callback) (clientPid : Pid) :
    ProfilingSession Callback × SessionRegistry Callback :=
  (registry.session clientPid, registry.update clientPid id)

@[simp] theorem session_new (clientPid : Pid) :
    (new : SessionRegistry Callback).session clientPid = ProfilingSession.new clientPid := rfl

theorem session_update (registry : SessionRegistry Callback) (clientPid other : Pid)
    (change : ProfilingSession Callback → ProfilingSession Callback) :
    (registry.update clientPid change).session other =
      if other = clientPid then change (registry.session clientPid) else registry.session other := by
  change (Function.update registry.sessions clientPid _ other).getD _ = _
  rw [Function.update_apply]
  split <;> rfl

@[simp] theorem session_Get (registry : SessionRegistry Callback) (clientPid other : Pid) :
    (registry.Get clientPid).2.session other = registry.session other := by
  rw [Get, session_update]
  split
  · rename_i same
    rw [same]
    rfl
  · rfl

end SessionRegistry

namespace HostIpcService

/-- The session is asked for, so that there is one; the location is that of the executing assembly. -/
def GetProfilingConfig (location : Text) (sessionRegistry : SessionRegistry Callback) (pid : Pid) :
    ProfilingConfigMsg × SessionRegistry Callback :=
  ({ shouldProfile := true, namespaceToProfile := ascii "ProfilingTarget.", profilerCoreDllPath := location },
    (sessionRegistry.Get pid).2)

/-- The registered method of a request. -/
def received (request : MethodMetadataMsg) : MethodMetadata where
  Token := request.token
  AssemblyName := request.assemblyName
  TypeName := request.typeName
  Signature := request.signature

def RegisterMethod (sessionRegistry : SessionRegistry Callback) (pid : Pid) (request : MethodMetadataMsg) :
    SessionRegistry Callback :=
  sessionRegistry.update pid (·.RegisterMethod (received request))

theorem session_RegisterMethod (sessionRegistry : SessionRegistry Callback) (pid other : Pid)
    (request : MethodMetadataMsg) :
    (RegisterMethod sessionRegistry pid request).session other =
      if other = pid then (sessionRegistry.session pid).RegisterMethod (received request)
      else sessionRegistry.session other :=
  sessionRegistry.session_update pid other _

end HostIpcService

end ClrProfiling.Core
