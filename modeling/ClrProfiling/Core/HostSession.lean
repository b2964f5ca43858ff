import ClrProfiling.Core.TokenResolution
import ClrProfiling.Host.Metadata
import ClrProfiling.Host.Registrations

/-! A host and its server, from the process identifier in the headers of its requests to the
lines that are written for the tokens its hooks report. -/

namespace ClrProfiling

open Unicode

/-- The name and the value of a header of a request, both in ASCII. -/
abbrev Header : Type := List Char × List Char

namespace IpcClient

/-- `std::to_string` of the identifier of the process, a DWORD. -/
def processId (pid : UInt32) : List Char := Nat.toDigits 10 pid.toNat

/-- The header that is added to every request. -/
def GetClientContext (pid : UInt32) : Header := ("pid".toList, processId pid)

end IpcClient

namespace Core

section Parsing

/-- What may stand around a number. -/
def isWhite (char : Char) : Bool := 0x09 ≤ char.toNat ∧ char.toNat ≤ 0x0D ∨ char.toNat = 0x20

/-- `int.Parse`, or its exception: white space, a sign, digits, white space and NULs, for a number of 32 bits. -/
def parseInt (text : List Char) : Option Int32 :=
  let (negative, digits) :=
    match text.dropWhile isWhite with
    | '-' :: rest => (true, rest)
    | '+' :: rest => (false, rest)
    | rest => (false, rest)
  let number := digits.takeWhile Char.isDigit
  let behind := ((digits.dropWhile Char.isDigit).dropWhile isWhite).dropWhile fun char => char.toNat = 0
  let magnitude : Int := Nat.ofDigitChars 10 number 0
  let value := if negative then -magnitude else magnitude
  if number ≠ [] ∧ behind = [] ∧ -2 ^ 31 ≤ value ∧ value < 2 ^ 31 then some (Int32.ofInt value) else none

example : parseInt " -17 ".toList = some (-17) ∧ parseInt "2147483648".toList = none ∧ parseInt "7x".toList = none := by
  decide

/-- What `std::to_string` writes is read back where it fits. -/
theorem parseInt_processId (pid : UInt32) : parseInt (IpcClient.processId pid) =
    if pid.toNat < 2 ^ 31 then some (Int32.ofInt pid.toNat) else none := by
  have digits : ∀ char ∈ IpcClient.processId pid, char.isDigit := fun char member =>
    Nat.isDigit_of_mem_toDigits (by decide) (by decide) member
  have nonempty : IpcClient.processId pid ≠ [] := Nat.toDigits_ne_nil
  obtain ⟨first, rest, whole⟩ := List.exists_cons_of_ne_nil nonempty
  have head : first.isDigit := digits first (whole ▸ List.mem_cons_self)
  have lower : 0x30 ≤ first.toNat := by
    simp only [Char.isDigit, Bool.and_eq_true, decide_eq_true_eq] at head
    exact head.1
  have white : isWhite first = false := by
    simp only [isWhite, decide_eq_false_iff_not]
    omega
  have start : (IpcClient.processId pid).dropWhile isWhite = IpcClient.processId pid := by
    rw [whole, List.dropWhile_cons_of_neg (by simp [white])]
  have taken : (IpcClient.processId pid).takeWhile Char.isDigit = IpcClient.processId pid :=
    List.takeWhile_eq_self_iff.mpr digits
  have dropped : (IpcClient.processId pid).dropWhile Char.isDigit = [] :=
    List.dropWhile_eq_nil_iff.mpr digits
  have unsigned : (match IpcClient.processId pid with
      | '-' :: rest => (true, rest)
      | '+' :: rest => (false, rest)
      | rest => (false, rest)) = (false, IpcClient.processId pid) := by
    rw [whole]
    split
    · rename_i same
      obtain ⟨rfl, -⟩ := List.cons_eq_cons.mp same
      exact absurd lower (by decide)
    · rename_i same
      obtain ⟨rfl, -⟩ := List.cons_eq_cons.mp same
      exact absurd lower (by decide)
    · rfl
  have value : Nat.ofDigitChars 10 (IpcClient.processId pid) 0 = pid.toNat := Nat.ofDigitChars_ten_toDigits
  simp only [parseInt, start, unsigned, taken, dropped, value, List.dropWhile_nil]
  refine if_congr ?_ rfl rfl
  simp only [ne_eq, nonempty, not_false_eq_true, true_and, Bool.false_eq_true, if_false]
  omega

end Parsing

variable {Callback : Type}

namespace HostIpcService

/-- The process of a request, from its first header of the name, or the exceptions of `First` and `int.Parse`. -/
def GetSessionForRequest (RequestHeaders : List Header) : Option Pid :=
  (RequestHeaders.find? fun header => header.1 = "pid".toList).bind fun header => parseInt header.2

/-- A request for the configuration; without a process there is no reply. -/
def configure (RequestHeaders : List Header) (location : Text) (sessionRegistry : SessionRegistry Callback) :
    Option ProfilingConfigMsg × SessionRegistry Callback :=
  match GetSessionForRequest RequestHeaders with
  | none => (none, sessionRegistry)
  | some pid =>
    let (reply, sessionRegistry) := GetProfilingConfig location sessionRegistry pid
    (some reply, sessionRegistry)

/-- A request for a registration. -/
def register (RequestHeaders : List Header) (sessionRegistry : SessionRegistry Callback)
    (request : MethodMetadataMsg) : SessionRegistry Callback :=
  match GetSessionForRequest RequestHeaders with
  | none => sessionRegistry
  | some pid => RegisterMethod sessionRegistry pid request

end HostIpcService

/-- A host from its start, and the sessions of the server behind its requests. The host waits for every
reply, and reads none but that for the configuration. -/
def attend {clr : Clr} (RequestHeaders : List Header) (location : Text) (sessionRegistry : SessionRegistry Callback)
    (runtime : clr.State) (turns : Nat) (modules : List (ModuleID × HRESULT)) :
    HostState clr × SessionRegistry Callback :=
  let (reply, sessionRegistry) := HostIpcService.configure RequestHeaders location sessionRegistry
  let s := callbacks modules (CorProfiler.new runtime reply turns)
  (s, s.sent.foldl (HostIpcService.register RequestHeaders) sessionRegistry)

section Registering

variable {pid : Pid} {requests : List MethodMetadataMsg} {sessionRegistry : SessionRegistry Callback}

/-- Requests of a process change its own session alone. -/
private theorem session_requests (sessionRegistry : SessionRegistry Callback) (pid other : Pid)
    (requests : List MethodMetadataMsg) :
    (requests.foldl (HostIpcService.RegisterMethod · pid) sessionRegistry).session other =
      if other = pid then
        requests.foldl (fun session request => session.RegisterMethod (HostIpcService.received request))
          (sessionRegistry.session pid)
      else sessionRegistry.session other := by
  induction requests generalizing sessionRegistry with
  | nil =>
    split
    · rename_i same
      rw [same]
      rfl
    · rfl
  | cons request rest ih =>
    rw [List.foldl_cons, ih, List.foldl_cons]
    split
    · rw [HostIpcService.session_RegisterMethod, if_pos rfl]
    · rename_i other
      rw [HostIpcService.session_RegisterMethod, if_neg other]

/-- What a token stands for behind some registrations. -/
private theorem resolve_requests (session : ProfilingSession Callback) (token : UInt64)
    (requests : List MethodMetadataMsg) :
    (token ∉ requests.map MethodMetadataMsg.token →
      (requests.foldl (fun session request => session.RegisterMethod (HostIpcService.received request))
        session).metadataRegistry.ResolveMethodToken token = session.metadataRegistry.ResolveMethodToken token) ∧
    ∀ request ∈ requests, request.token = token → (requests.map MethodMetadataMsg.token).Nodup →
      (requests.foldl (fun session request => session.RegisterMethod (HostIpcService.received request))
        session).metadataRegistry.ResolveMethodToken token = some (HostIpcService.received request) := by
  induction requests generalizing session with
  | nil => exact ⟨fun _ => rfl, fun request member => nomatch member⟩
  | cons first rest ih =>
    obtain ⟨kept, found⟩ := ih (session.RegisterMethod (HostIpcService.received first))
    have here : (session.RegisterMethod (HostIpcService.received first)).metadataRegistry.ResolveMethodToken token =
        if token = first.token then some (HostIpcService.received first)
        else session.metadataRegistry.ResolveMethodToken token :=
      MetadataRegistry.ResolveMethodToken_RegisterMethod ..
    constructor
    · intro absent
      rw [List.map_cons, List.mem_cons, not_or] at absent
      rw [List.foldl_cons, kept absent.2, here, if_neg absent.1]
    · intro request member same distinct
      rw [List.map_cons, List.nodup_cons] at distinct
      rw [List.foldl_cons]
      rcases List.mem_cons.mp member with rfl | later
      · rw [kept (same ▸ distinct.1), here, if_pos same.symm]
      · exact found request later same distinct.2

end Registering

section Attendance

variable {clr : Clr} {pid : UInt32} {front back : List Header}

private theorem getSessionForRequest (others : ∀ header ∈ front, header.1 ≠ "pid".toList) :
    HostIpcService.GetSessionForRequest (front ++ IpcClient.GetClientContext pid :: back) =
      if pid.toNat < 2 ^ 31 then some (Int32.ofInt pid.toNat) else none := by
  have found : (front ++ IpcClient.GetClientContext pid :: back).find? (fun header => header.1 = "pid".toList) =
      some (IpcClient.GetClientContext pid) := by
    have absent : front.find? (fun header => header.1 = "pid".toList) = none := by
      rw [List.find?_eq_none]
      exact fun header member => by simpa using others header member
    rw [List.find?_append, absent, Option.none_or, List.find?_cons_of_pos (by simp [IpcClient.GetClientContext])]
  rw [HostIpcService.GetSessionForRequest, found]
  exact parseInt_processId pid

private theorem attend_of_session {headers : List Header} {pid : Pid}
    (session : HostIpcService.GetSessionForRequest headers = some pid) (location : Text)
    (sessionRegistry : SessionRegistry Callback) (runtime : clr.State) (turns : Nat)
    (modules : List (ModuleID × HRESULT)) :
    attend headers location sessionRegistry runtime turns modules =
      let s := callbacks modules (CorProfiler.new runtime
        (some (HostIpcService.GetProfilingConfig location sessionRegistry pid).1) turns)
      (s, s.sent.foldl (HostIpcService.RegisterMethod · pid) (sessionRegistry.Get pid).2) := by
  have each : HostIpcService.register headers =
      (HostIpcService.RegisterMethod · pid : SessionRegistry Callback → _) := by
    funext sessionRegistry request
    rw [HostIpcService.register, session]
  rw [attend, HostIpcService.configure, session, each]
  rfl

private theorem attend_of_refused {headers : List Header}
    (session : HostIpcService.GetSessionForRequest headers = none) (location : Text)
    (sessionRegistry : SessionRegistry Callback) (runtime : clr.State) (turns : Nat)
    (modules : List (ModuleID × HRESULT)) :
    attend headers location sessionRegistry runtime turns modules =
      (callbacks modules (CorProfiler.new runtime none turns), sessionRegistry) := by
  have each : HostIpcService.register headers = (fun sessionRegistry _ => sessionRegistry :
      SessionRegistry Callback → _) := by
    funext sessionRegistry request
    rw [HostIpcService.register, session]
  rw [attend, HostIpcService.configure, session, each]
  refine Prod.ext rfl ?_
  simp only [List.foldl_const]
  exact congrFun (Function.iterate_id _) sessionRegistry

/-- The lines of a session for a token give a type and a method. -/
structure Names (session : ProfilingSession Callback) (token : UInt64) (typeName signature : Text) : Prop where
  enter : ∀ threadId, session.OnMethodEnter token threadId =
    ascii "[Enter - " ++ decimal threadId.toInt ++ ascii "] " ++ (typeName ++ ascii "." ++ signature)
  exit : ∀ threadId, session.OnMethodExit token threadId =
    ascii "[Exit  - " ++ decimal threadId.toInt ++ ascii "] " ++ (typeName ++ ascii "." ++ signature)

private theorem names_of_resolved {session : ProfilingSession Callback} {token : UInt64}
    {method : ClrProfiling.MethodMetadata} (resolved : session.metadataRegistry.ResolveMethodToken token =
      some (HostIpcService.received (IpcClient.RegisterMethod method))) :
    Names session token (ToString method.typeName) (ToString method.signature) := by
  have described : session.GetMethodDescription token =
      ToString method.typeName ++ ascii "." ++ ToString method.signature := by
    rw [ProfilingSession.GetMethodDescription, resolved]
    rfl
  constructor
  · intro threadId
    rw [ProfilingSession.OnMethodEnter, described]
  · intro threadId
    rw [ProfilingSession.OnMethodExit, described]

end Attendance

section Witness

def agentHeaders : List Header := [("user-agent".toList, "grpc-c++".toList)]

def programAttended : HostState (tableRuntime (wide "App") 0) × SessionRegistry Unit :=
  attend (agentHeaders ++ IpcClient.GetClientContext 4711 :: []) (ascii "ProfilerCore.dll") SessionRegistry.new
    programTables 8 [(1, S_OK)]

private theorem programAttended_calls : programAttended.1.calls =
    [.RegisterMethod ⟨1, wide "App:1", wide "ProfilingTarget.Program", wide "Main"⟩,
      .InjectEnterExitHooks 0x06000001 0x06000004 0x06000005 (some 1)] := by
  decide +kernel

end Witness

end Core

end ClrProfiling
