import ClrProfiling.Foundation.Transition
import ClrProfiling.Host.CorProfiler

/-! The callbacks that `mscorlib` makes for execution contexts: a hook in one module, fields
that the static constructor of another one sets, and threads that may run at any time. -/

namespace ClrProfiling.Core

open Transition

/-- The methods of `ProfilingHook` that are called back. -/
inductive Callback where
  | OnExecutionContextCaptured
  | OnExecutionContextResumed
deriving DecidableEq, Repr

/-- The fields of `MscorlibBridgeType` and of `ProfilingHook`. -/
inductive StaticField where
  | executionContextCapturedCallback
  | executionContextResumedCallback
  | onExecCtxCaptured
  | onExecCtxResumed
deriving DecidableEq, Repr

inductive Method where
  | Capture
  | RunInternal
  | OnExecutionContextCaptured
  | OnExecutionContextResumed
  | ProfilingHookCctor
  | InitializeMscorlibBridge
deriving DecidableEq, Repr

/-- Instructions, where `library` is any code that can capture and resume contexts, use the
profiler, throw and catch. -/
inductive BridgeInstr where
  | library
  | ldsfld (field : StaticField)
  | stsfld (field : StaticField)
  | newobj (callback : Callback)
  | callvirt
  | call (method : Method)
  | ret
deriving DecidableEq, Repr

section Bodies

def ActionProxyMethod (actionField : StaticField) : List BridgeInstr := [.ldsfld actionField, .callvirt, .ret]

def SetCallback (valueField targetField : StaticField) : List BridgeInstr := [.ldsfld valueField, .stsfld targetField]

def InitializeMscorlibBridgeMethod (setCtxCaptureCallback setCtxResumeCallback : List BridgeInstr) : List BridgeInstr :=
  setCtxCaptureCallback ++ setCtxResumeCallback ++ [.ret]

/-- The instructions in the bytes of a generated body. -/
def BridgeInstr.encode (fields : StaticField → mdFieldDef) (actionInvokeMethod : mdMethodDef) : BridgeInstr → List UInt8
  | .ldsfld field => tokenInstr CEE_LDSFLD (fields field)
  | .stsfld field => tokenInstr CEE_STSFLD (fields field)
  | .callvirt => tokenInstr CEE_CALLVIRT actionInvokeMethod
  | .ret => [UInt8.ofNat CEE_RET]
  | _ => []

theorem ActionProxyMethodIL_eq (fields : StaticField → mdFieldDef) (actionInvokeMethod : mdMethodDef)
    (actionField : StaticField) :
    MscorlibModuleInstrumenter.ActionProxyMethodIL (fields actionField) actionInvokeMethod =
      tinyBody ((ActionProxyMethod actionField).flatMap (BridgeInstr.encode fields actionInvokeMethod)) := by
  simp [MscorlibModuleInstrumenter.ActionProxyMethodIL, ActionProxyMethod, BridgeInstr.encode]

open ProfilerCoreModuleInstrumenter in
theorem InitializeMscorlibBridgeMethodIL_eq (fields : StaticField → mdFieldDef) (actionInvokeMethod : mdMethodDef)
    (captured captureField resumed resumeField : StaticField) :
    InitializeMscorlibBridgeMethodIL (SetCallbackIL (fields captured) (fields captureField))
      (SetCallbackIL (fields resumed) (fields resumeField)) =
        tinyBody ((InitializeMscorlibBridgeMethod (SetCallback captured captureField)
          (SetCallback resumed resumeField)).flatMap (BridgeInstr.encode fields actionInvokeMethod)) := by
  simp [InitializeMscorlibBridgeMethodIL, SetCallbackIL, InitializeMscorlibBridgeMethod, SetCallback,
    BridgeInstr.encode]

def withEnterHook (hook : Method) (code : List BridgeInstr) : List BridgeInstr := .call hook :: code

def withExitHook (hook : Method) (code : List BridgeInstr) : List BridgeInstr :=
  code.flatMap fun instr => if instr = .ret then [.call hook, .ret] else [instr]

/-- `static ProfilingHook()`, which makes the client first. -/
def profilingHookCctor : List BridgeInstr :=
  [.library, .newobj .OnExecutionContextCaptured, .stsfld .onExecCtxCaptured,
    .newobj .OnExecutionContextResumed, .stsfld .onExecCtxResumed, .ret]

/-- The code a method has when it is called, with the modules instrumented so far. -/
def body (mscorlib profilerCore : Bool) : Method → List BridgeInstr
  | .Capture =>
    if mscorlib then withEnterHook .OnExecutionContextCaptured [.library, .ret] else [.library, .ret]
  | .RunInternal =>
    if mscorlib then withEnterHook .OnExecutionContextResumed [.library, .ret] else [.library, .ret]
  | .OnExecutionContextCaptured => ActionProxyMethod .executionContextCapturedCallback
  | .OnExecutionContextResumed => ActionProxyMethod .executionContextResumedCallback
  | .ProfilingHookCctor =>
    if profilerCore then withExitHook .InitializeMscorlibBridge profilingHookCctor else profilingHookCctor
  | .InitializeMscorlibBridge => InitializeMscorlibBridgeMethod
      (SetCallback .onExecCtxCaptured .executionContextCapturedCallback)
      (SetCallback .onExecCtxResumed .executionContextResumedCallback)

end Bodies

/-- A method at work; null is none. -/
structure Frame where
  code : List BridgeInstr
  stack : List (Option Callback)
deriving DecidableEq, Repr

namespace ContextFlow

/-- `frames` are those of every thread, the innermost first. -/
structure State (Thread : Type) where
  mscorlib : Bool
  profilerCore : Bool
  constructed : Bool
  fields : StaticField → Option Callback
  frames : Thread → List Frame

variable {Thread : Type}

def start : State Thread := ⟨false, false, false, fun _ => none, fun _ => []⟩

inductive Label (Thread : Type) where
  | instrument
  | call (thread : Thread) (method : Method)
  | load (thread : Thread) (field : StaticField) (value : Option Callback)
  | store (thread : Thread) (field : StaticField) (value : Option Callback)
  | execute (thread : Thread)

/-- The thread runs library code, or that of the program. -/
def Free (frames : List Frame) : Prop := ∀ frame ∈ frames.head?, ∃ code, frame.code = .library :: code

/-- An exception leaves some of the frames and is caught by library code, or by that of the program. -/
def Unwinds (frames frames' : List Frame) : Prop := frames' <:+ frames ∧ Free frames'

/-- The fields from which the hooks in `mscorlib` take the callbacks. -/
def IsBridgeField (field : StaticField) : Prop :=
  field = .executionContextCapturedCallback ∨ field = .executionContextResumedCallback

section Steps

variable [DecidableEq Thread]

def State.set (s : State Thread) (thread : Thread) (frames : List Frame) : State Thread :=
  { s with frames := Function.update s.frames thread frames }

/-- Modules are instrumented when they are loaded. Library code may capture and resume
contexts, and use `ProfilingHook` for the first time, which runs its constructor. -/
inductive Step : State Thread → Label Thread → State Thread → Prop
  | instrumentMscorlib (fresh : s.mscorlib = false) : Step s .instrument { s with mscorlib := true }
  | instrumentProfilerCore (fresh : s.profilerCore = false) : Step s .instrument { s with profilerCore := true }
  | flow (thread : Thread) (method : Method) (free : Free (s.frames thread))
      (flows : method = .Capture ∨ method = .RunInternal) : Step s (.call thread method)
        (s.set thread (⟨body s.mscorlib s.profilerCore method, []⟩ :: s.frames thread))
  | touch (thread : Thread) (free : Free (s.frames thread)) (untouched : s.constructed = false) :
    Step s (.call thread .ProfilingHookCctor) ({ s with constructed := true }.set thread
      (⟨body s.mscorlib s.profilerCore .ProfilingHookCctor, []⟩ :: s.frames thread))
  | library (thread : Thread) (frames : s.frames thread = ⟨.library :: code, stack⟩ :: rest) :
    Step s (.execute thread) (s.set thread (⟨code, stack⟩ :: rest))
  | raise (thread : Thread) (frames : s.frames thread = ⟨.library :: code, stack⟩ :: rest)
      (unwinds : Unwinds rest rest') : Step s (.execute thread) (s.set thread rest')
  | ldsfld (thread : Thread) (field : StaticField) (frames : s.frames thread = ⟨.ldsfld field :: code, stack⟩ :: rest) :
    Step s (.load thread field (s.fields field)) (s.set thread (⟨code, s.fields field :: stack⟩ :: rest))
  | stsfld (thread : Thread) (field : StaticField) (value : Option Callback)
      (frames : s.frames thread = ⟨.stsfld field :: code, value :: stack⟩ :: rest) :
    Step s (.store thread field value)
      ({ s with fields := Function.update s.fields field value }.set thread (⟨code, stack⟩ :: rest))
  | newobj (thread : Thread) (callback : Callback)
      (frames : s.frames thread = ⟨.newobj callback :: code, stack⟩ :: rest) :
    Step s (.execute thread) (s.set thread (⟨code, some callback :: stack⟩ :: rest))
  | invoke (thread : Thread) (frames : s.frames thread = ⟨.callvirt :: code, some callback :: stack⟩ :: rest) :
    Step s (.execute thread) (s.set thread (⟨[.library, .ret], []⟩ :: ⟨code, stack⟩ :: rest))
  | invokeNull (thread : Thread) (frames : s.frames thread = ⟨.callvirt :: code, none :: stack⟩ :: rest)
      (unwinds : Unwinds rest rest') : Step s (.execute thread) (s.set thread rest')
  | call (thread : Thread) (method : Method) (frames : s.frames thread = ⟨.call method :: code, stack⟩ :: rest) :
    Step s (.call thread method)
      (s.set thread (⟨body s.mscorlib s.profilerCore method, []⟩ :: ⟨code, stack⟩ :: rest))
  | ret (thread : Thread) (frames : s.frames thread = ⟨.ret :: code, stack⟩ :: rest) :
    Step s (.execute thread) (s.set thread rest)

end Steps

/-- A hook never loads null. -/
def CallbacksSet (labels : List (Label Thread)) : Prop :=
  ∀ thread field value, .load thread field value ∈ labels → IsBridgeField field → value ≠ none

/-- Whenever a hook loads a callback, the constructor of `ProfilingHook` has got as far as to store it. -/
def Initialized (labels : List (Label Thread)) : Prop :=
  ∀ before thread field value after, labels = before ++ .load thread field value :: after → IsBridgeField field →
    ∃ thread' value', .store thread' field value' ∈ before

section Safety

/-- The fields a method relies on to be set when it is called. -/
def requires : Method → List StaticField
  | .InitializeMscorlibBridge => [.onExecCtxCaptured, .onExecCtxResumed]
  | _ => []

/-- Code that stores no null into a field, and calls no method too early, where some fields
are known to be set. -/
def Safe (known : StaticField → Prop) : List BridgeInstr → List (Option Callback) → Prop
  | .library :: code, stack => Safe known code stack
  | .ldsfld field :: code, stack => ∀ value, (known field → value ≠ none) → Safe known code (value :: stack)
  | .stsfld field :: code, value :: stack => value ≠ none ∧ Safe (fun other => other = field ∨ known other) code stack
  | .newobj callback :: code, stack => Safe known code (some callback :: stack)
  | .callvirt :: code, _ :: stack => Safe known code stack
  | .call method :: code, stack => (∀ field ∈ requires method, known field) ∧ Safe known code stack
  | _, _ => True

theorem Safe.mono {known known' : StaticField → Prop} (more : ∀ field, known field → known' field)
    {code : List BridgeInstr} {stack : List (Option Callback)} (safe : Safe known code stack) :
    Safe known' code stack := by
  induction code generalizing known known' stack with
  | nil => trivial
  | cons instr code ih =>
    cases instr with
    | library => exact ih more safe
    | ldsfld field => exact fun value set => ih more (safe value fun here => set (more field here))
    | stsfld field =>
      cases stack with
      | nil => trivial
      | cons value stack => exact ⟨safe.1, ih (fun other => Or.imp_right (more other)) safe.2⟩
    | newobj callback => exact ih more safe
    | callvirt =>
      cases stack with
      | nil => trivial
      | cons value stack => exact ih more safe
    | call method => exact ⟨fun field member => more field (safe.1 field member), ih more safe.2⟩
    | ret => trivial

theorem safe_body (mscorlib profilerCore : Bool) (method : Method) :
    Safe (· ∈ requires method) (body mscorlib profilerCore method) [] := by
  cases mscorlib <;> cases profilerCore <;> cases method <;>
    simp [body, withEnterHook, withExitHook, ActionProxyMethod, InitializeMscorlibBridgeMethod, SetCallback,
      profilingHookCctor, Safe, requires]

end Safety

section Invariant

variable {labels : List (Label Thread)} {s s' : State Thread} {fields : StaticField → Option Callback}

/-- What the threads have run so far about the fields: they are set where something was stored
into them, and so they were whenever they were loaded. -/
structure Recorded (labels : List (Label Thread)) (fields : StaticField → Option Callback) : Prop where
  stored : ∀ field, fields field ≠ none ↔ ∃ thread value, .store thread field value ∈ labels
  loaded : ∀ before thread field value after, labels = before ++ .load thread field value :: after →
    (value ≠ none ↔ ∃ thread' value', .store thread' field value' ∈ before)

/-- All the work of a thread is safe with the fields that are set. -/
def AllSafe (fields : StaticField → Option Callback) (frames : List Frame) : Prop :=
  ∀ frame ∈ frames, Safe (fun field => fields field ≠ none) frame.code frame.stack

structure Holds (labels : List (Label Thread)) (s : State Thread) : Prop where
  recorded : Recorded labels s.fields
  safe : ∀ thread, AllSafe s.fields (s.frames thread)

theorem holds_start : Holds ([] : List (Label Thread)) start where
  recorded := by
    refine ⟨fun field => ⟨fun set => absurd rfl set, nofun⟩, fun before thread field value after split => ?_⟩
    exact absurd split.symm (List.append_ne_nil_of_right_ne_nil before (List.cons_ne_nil _ after))
  safe _ _ none := nomatch none

private theorem Recorded.snoc (recorded : Recorded labels fields) {label : Label Thread}
    {fields' : StaticField → Option Callback}
    (stores : ∀ field, fields' field ≠ none ↔ fields field ≠ none ∨ ∃ thread value, label = .store thread field value)
    (loads : ∀ thread field value, label = .load thread field value → value = fields field) :
    Recorded (labels ++ [label]) fields' := by
  refine ⟨fun field => ?_, fun before thread field value after split => ?_⟩
  · rw [stores, recorded.stored]
    constructor
    · rintro (⟨thread, value, early⟩ | ⟨thread, value, rfl⟩)
      · exact ⟨thread, value, List.mem_append_left _ early⟩
      · exact ⟨thread, value, List.mem_append_right _ (List.mem_singleton_self _)⟩
    · rintro ⟨thread, value, member⟩
      rcases List.mem_append.mp member with early | late
      · exact .inl ⟨thread, value, early⟩
      · exact .inr ⟨thread, value, (List.mem_singleton.mp late).symm⟩
  · rcases after.eq_nil_or_concat with rfl | ⟨others, final, rfl⟩
    · obtain ⟨rfl, last⟩ := List.append_inj' split rfl
      rw [loads thread field value (List.singleton_inj.mp last)]
      exact recorded.stored field
    · rw [List.concat_eq_append, ← List.cons_append, ← List.append_assoc] at split
      exact recorded.loaded before thread field value others (List.append_inj' split rfl).1

private theorem AllSafe.mono {fields' : StaticField → Option Callback} {frames : List Frame}
    (safe : AllSafe fields frames) (more : ∀ field, fields field ≠ none → fields' field ≠ none) :
    AllSafe fields' frames :=
  fun frame member => (safe frame member).mono more

private theorem AllSafe.unwinds {frames frames' : List Frame} (safe : AllSafe fields frames)
    (unwinds : Unwinds frames frames') : AllSafe fields frames' :=
  fun frame member => safe frame (unwinds.1.subset member)

private theorem AllSafe.head {frame : Frame} {frames : List Frame} (safe : AllSafe fields (frame :: frames)) :
    Safe (fun field => fields field ≠ none) frame.code frame.stack :=
  safe frame List.mem_cons_self

private theorem AllSafe.tail {frame : Frame} {frames : List Frame} (safe : AllSafe fields (frame :: frames)) :
    AllSafe fields frames :=
  fun other member => safe other (List.mem_cons_of_mem _ member)

private theorem AllSafe.cons {frame : Frame} {frames : List Frame}
    (here : Safe (fun field => fields field ≠ none) frame.code frame.stack) (safe : AllSafe fields frames) :
    AllSafe fields (frame :: frames) :=
  List.forall_mem_cons.mpr ⟨here, safe⟩

private theorem AllSafe.enter {frames : List Frame} (safe : AllSafe fields frames) (mscorlib profilerCore : Bool)
    (method : Method) (set : ∀ field ∈ requires method, fields field ≠ none) :
    AllSafe fields (⟨body mscorlib profilerCore method, []⟩ :: frames) :=
  .cons ((safe_body mscorlib profilerCore method).mono set) safe

variable [DecidableEq Thread]

private theorem Holds.keep (holds : Holds labels s) {label : Label Thread} {thread : Thread} {frames : List Frame}
    (stores : ∀ thread field value, label ≠ .store thread field value)
    (loads : ∀ thread field value, label = .load thread field value → value = s.fields field)
    (safe : AllSafe s.fields frames) : Holds (labels ++ [label]) (s.set thread frames) where
  recorded := by
    refine holds.recorded.snoc (fun field => ⟨.inl, ?_⟩) loads
    rintro (set | ⟨thread, value, same⟩)
    · exact set
    · exact absurd same (stores thread field value)
  safe := (Function.forall_update_iff s.frames fun _ => AllSafe s.fields).mpr ⟨safe, fun other _ => holds.safe other⟩

/-- A thread stores a callback. -/
private theorem Holds.store (holds : Holds labels s) {thread : Thread} {field : StaticField} {value : Option Callback}
    {code : List BridgeInstr} {stack : List (Option Callback)} {rest : List Frame}
    (frames : s.frames thread = ⟨.stsfld field :: code, value :: stack⟩ :: rest) :
    Holds (labels ++ [.store thread field value])
      ({ s with fields := Function.update s.fields field value }.set thread (⟨code, stack⟩ :: rest)) := by
  have safe := holds.safe thread
  rw [frames] at safe
  obtain ⟨set, here⟩ := safe.head
  have now (other : StaticField) :
      Function.update s.fields field value other ≠ none ↔ other = field ∨ s.fields other ≠ none := by
    rw [Function.update_apply]
    split
    · rename_i same
      exact iff_of_true set (.inl same)
    · rename_i apart
      exact (or_iff_right apart).symm
  have more (other : StaticField) (set : s.fields other ≠ none) : Function.update s.fields field value other ≠ none :=
    (now other).mpr (.inr set)
  refine ⟨holds.recorded.snoc (fun other => ?_) nofun, ?_⟩
  · refine (now other).trans (or_comm.trans (or_congr_right ⟨?_, ?_⟩))
    · rintro rfl
      exact ⟨thread, value, rfl⟩
    · rintro ⟨_, _, ⟨⟩⟩
      rfl
  · refine (Function.forall_update_iff s.frames fun _ => AllSafe (Function.update s.fields field value)).mpr
      ⟨.cons ?_ (safe.tail.mono more), fun other _ => (holds.safe other).mono more⟩
    exact here.mono fun other => (now other).mpr

theorem Holds.step (holds : Holds labels s) {label : Label Thread} (step : Step s label s') :
    Holds (labels ++ [label]) s' := by
  have safe {thread : Thread} {frames : List Frame} (same : s.frames thread = frames) : AllSafe s.fields frames :=
    same ▸ holds.safe thread
  cases step with
  | instrumentMscorlib fresh => exact ⟨holds.recorded.snoc (by simp) nofun, holds.safe⟩
  | instrumentProfilerCore fresh => exact ⟨holds.recorded.snoc (by simp) nofun, holds.safe⟩
  | flow thread method free flows =>
    refine holds.keep nofun nofun ((holds.safe thread).enter _ _ _ ?_)
    rcases flows with rfl | rfl <;> exact nofun
  | touch thread free untouched =>
    have kept : Holds labels { s with constructed := true } := ⟨holds.recorded, holds.safe⟩
    exact kept.keep nofun nofun ((holds.safe thread).enter _ _ _ nofun)
  | library thread frames => exact holds.keep nofun nofun (.cons (safe frames).head (safe frames).tail)
  | raise thread frames unwinds => exact holds.keep nofun nofun ((safe frames).tail.unwinds unwinds)
  | ldsfld thread field frames =>
    refine holds.keep nofun ?_ (.cons ((safe frames).head (s.fields field) id) (safe frames).tail)
    rintro _ _ _ ⟨⟩
    rfl
  | stsfld thread field value frames => exact holds.store frames
  | newobj thread callback frames => exact holds.keep nofun nofun (.cons (safe frames).head (safe frames).tail)
  | invoke thread frames =>
    exact holds.keep nofun nofun (.cons trivial (.cons (safe frames).head (safe frames).tail))
  | invokeNull thread frames unwinds => exact holds.keep nofun nofun ((safe frames).tail.unwinds unwinds)
  | call thread method frames =>
    obtain ⟨set, later⟩ := (safe frames).head
    exact holds.keep nofun nofun (.enter (.cons later (safe frames).tail) _ _ _ set)
  | ret thread frames => exact holds.keep nofun nofun (safe frames).tail

theorem holds_of_run (run : Run Step start labels s) : Holds labels s :=
  run.invariant Holds holds_start fun _ _ _ _ holds step => holds.step step

end Invariant

section Constructor

/-- Code that stores nothing, itself or in what it calls. -/
def Storeless (code : List BridgeInstr) : Prop :=
  ∀ instr ∈ code, instr ≠ .call .InitializeMscorlibBridge ∧ ∀ field, instr ≠ .stsfld field

theorem storeless_body (mscorlib profilerCore : Bool) {method : Method} (apart : method ≠ .ProfilingHookCctor)
    (apart' : method ≠ .InitializeMscorlibBridge) : Storeless (body mscorlib profilerCore method) := by
  cases mscorlib <;> cases method <;>
    simp_all [body, withEnterHook, ActionProxyMethod, Storeless]

/-- A run in which no thread has used `ProfilingHook`. -/
def Untouched (labels : List (Label Thread)) : Prop := ∀ thread, .call thread .ProfilingHookCctor ∉ labels

variable {labels : List (Label Thread)} {s s' : State Thread}

def AllStoreless (frames : List Frame) : Prop := ∀ frame ∈ frames, Storeless frame.code

/-- Nothing is stored, and no thread has anything to store. -/
structure Unarmed (labels : List (Label Thread)) (s : State Thread) : Prop where
  stored : ∀ thread field value, .store thread field value ∉ labels
  storeless : ∀ thread, AllStoreless (s.frames thread)

private theorem AllStoreless.tail {frame : Frame} {frames : List Frame} (storeless : AllStoreless (frame :: frames)) :
    AllStoreless frames :=
  fun other member => storeless other (List.mem_cons_of_mem _ member)

private theorem AllStoreless.cons {frame : Frame} {frames : List Frame} (here : Storeless frame.code)
    (storeless : AllStoreless frames) : AllStoreless (frame :: frames) :=
  List.forall_mem_cons.mpr ⟨here, storeless⟩

private theorem AllStoreless.next {instr : BridgeInstr} {code : List BridgeInstr}
    {stack stack' : List (Option Callback)}
    {rest : List Frame} (storeless : AllStoreless (⟨instr :: code, stack⟩ :: rest)) :
    AllStoreless (⟨code, stack'⟩ :: rest) :=
  .cons (fun other member => storeless _ List.mem_cons_self other (List.mem_cons_of_mem _ member)) storeless.tail

private theorem AllStoreless.unwinds {frames frames' : List Frame} (storeless : AllStoreless frames)
    (unwinds : Unwinds frames frames') : AllStoreless frames' :=
  fun frame member => storeless frame (unwinds.1.subset member)

private theorem Unarmed.snoc (unarmed : Unarmed labels s) {label : Label Thread}
    (stores : ∀ thread field value, label ≠ .store thread field value)
    (storeless : ∀ thread, AllStoreless (s'.frames thread)) : Unarmed (labels ++ [label]) s' := by
  refine ⟨fun thread field value member => ?_, storeless⟩
  rcases List.mem_append.mp member with early | late
  · exact unarmed.stored thread field value early
  · exact stores thread field value (List.mem_singleton.mp late).symm

variable [DecidableEq Thread]

private theorem Unarmed.keep (unarmed : Unarmed labels s) {label : Label Thread} {thread : Thread} {frames : List Frame}
    (stores : ∀ thread field value, label ≠ .store thread field value) (storeless : AllStoreless frames) :
    Unarmed (labels ++ [label]) (s.set thread frames) :=
  unarmed.snoc stores ((Function.forall_update_iff s.frames fun _ => AllStoreless).mpr
    ⟨storeless, fun other _ => unarmed.storeless other⟩)

theorem Unarmed.step (unarmed : Unarmed labels s) {label : Label Thread} (step : Step s label s')
    (untouched : Untouched [label]) : Unarmed (labels ++ [label]) s' := by
  have storeless {thread : Thread} {frames : List Frame} (same : s.frames thread = frames) : AllStoreless frames :=
    same ▸ unarmed.storeless thread
  cases step with
  | instrumentMscorlib fresh => exact unarmed.snoc nofun unarmed.storeless
  | instrumentProfilerCore fresh => exact unarmed.snoc nofun unarmed.storeless
  | flow thread method free flows =>
    refine unarmed.keep nofun (.cons (storeless_body _ _ ?_ ?_) (unarmed.storeless thread)) <;>
      rcases flows with rfl | rfl <;> exact nofun
  | touch thread free fresh => exact absurd (List.mem_singleton_self _) (untouched thread)
  | library thread frames => exact unarmed.keep nofun (storeless frames).next
  | raise thread frames unwinds => exact unarmed.keep nofun ((storeless frames).tail.unwinds unwinds)
  | ldsfld thread field frames => exact unarmed.keep nofun (storeless frames).next
  | stsfld thread field value frames =>
    exact absurd rfl ((storeless frames _ List.mem_cons_self _ List.mem_cons_self).2 field)
  | newobj thread callback frames => exact unarmed.keep nofun (storeless frames).next
  | invoke thread frames =>
    refine unarmed.keep nofun (.cons ?_ (storeless frames).next)
    simp [Storeless]
  | invokeNull thread frames unwinds => exact unarmed.keep nofun ((storeless frames).tail.unwinds unwinds)
  | call thread method frames =>
    refine unarmed.keep nofun (.cons (storeless_body _ _ ?_ ?_) (storeless frames).next)
    · rintro rfl
      exact untouched thread (List.mem_singleton_self _)
    · rintro rfl
      exact (storeless frames _ List.mem_cons_self _ List.mem_cons_self).1 rfl
  | ret thread frames => exact unarmed.keep nofun (storeless frames).tail

private theorem untouched_unset (run : Run Step start labels s) (untouched : Untouched labels) {thread : Thread}
    {field : StaticField} {value : Option Callback} (loads : .load thread field value ∈ labels) : value = none := by
  have unarmed : Unarmed labels s := by
    refine run.invariant (fun labels s => Untouched labels → Unarmed labels s)
      (fun _ => ⟨fun _ _ _ => List.not_mem_nil, fun _ frame none => absurd none List.not_mem_nil⟩)
        (fun labels s label s' unarmed step untouched => ?_) untouched
    exact (unarmed fun thread member => untouched thread (List.mem_append_left _ member)).step step
      fun thread member => untouched thread (List.mem_append_right _ member)
  obtain ⟨before, after, split⟩ := List.append_of_mem loads
  by_contra set
  obtain ⟨thread', value', stored⟩ := ((holds_of_run run).recorded.loaded before thread field value after split).mp set
  apply unarmed.stored thread' field value'
  rw [split]
  exact List.mem_append_left _ stored

/-- In every run, the hooks find the callbacks set exactly where the constructor has always
got as far as to store them before; where no thread has used `ProfilingHook` they find null. -/
theorem callbacks_set_iff (run : Run Step start labels s) : (CallbacksSet labels ↔ Initialized labels) ∧
    (Untouched labels → ∀ thread field value, .load thread field value ∈ labels → value = none) := by
  have loaded := (holds_of_run run).recorded.loaded
  refine ⟨⟨?_, ?_⟩, fun untouched thread field value loads => untouched_unset run untouched loads⟩
  · intro set before thread field value after split bridge
    have member : .load thread field value ∈ labels := by
      rw [split]
      exact List.mem_append_right _ List.mem_cons_self
    exact (loaded before thread field value after split).mp (set thread field value member bridge)
  · intro initialized thread field value member bridge
    obtain ⟨before, after, split⟩ := List.append_of_mem member
    exact (loaded before thread field value after split).mpr
      (initialized before thread field value after split bridge)

end Constructor

section Runs

/-- A context is captured before `ProfilingHook` is used. -/
def premature : List (Label Unit) :=
  [.instrument, .call () .Capture, .call () .OnExecutionContextCaptured,
    .load () .executionContextCapturedCallback none]

private theorem premature_runs : ∃ s, Run Step start premature s := by
  have instrumented : Run Step (@start Unit) [.instrument] _ := Run.single (.instrumentMscorlib rfl)
  have captured : Run Step start ([.instrument] ++ [.call () .Capture]) _ :=
    instrumented.snoc (.flow () .Capture nofun (.inl rfl))
  have hooked : Run Step start ([.instrument, .call () .Capture] ++ [.call () .OnExecutionContextCaptured]) _ :=
    captured.snoc (.call () .OnExecutionContextCaptured rfl)
  exact ⟨_, hooked.snoc (.ldsfld () .executionContextCapturedCallback rfl)⟩

/-- The constructor of `ProfilingHook` in full, and a context that is captured behind it. -/
def construction : List (Label Unit) :=
  [.instrument, .instrument, .call () .ProfilingHookCctor, .execute (), .execute (),
    .store () .onExecCtxCaptured (some .OnExecutionContextCaptured), .execute (),
    .store () .onExecCtxResumed (some .OnExecutionContextResumed), .call () .InitializeMscorlibBridge,
    .load () .onExecCtxCaptured (some .OnExecutionContextCaptured),
    .store () .executionContextCapturedCallback (some .OnExecutionContextCaptured),
    .load () .onExecCtxResumed (some .OnExecutionContextResumed),
    .store () .executionContextResumedCallback (some .OnExecutionContextResumed), .execute (), .execute (),
    .call () .Capture, .call () .OnExecutionContextCaptured,
    .load () .executionContextCapturedCallback (some .OnExecutionContextCaptured)]

private theorem construction_runs : ∃ s, Run Step start construction s := by
  have fresh : Run Step (@start Unit) [] start := .nil
  have touched :=
    (fresh.snoc (.instrumentMscorlib rfl)).snoc (.instrumentProfilerCore rfl) |>.snoc (.touch () nofun rfl)
  have stored := (touched.snoc (.library () rfl)).snoc (.newobj () .OnExecutionContextCaptured rfl) |>.snoc
    (.stsfld () .onExecCtxCaptured _ rfl) |>.snoc (.newobj () .OnExecutionContextResumed rfl) |>.snoc
    (.stsfld () .onExecCtxResumed _ rfl)
  have bridged := (stored.snoc (.call () .InitializeMscorlibBridge rfl)).snoc (.ldsfld () .onExecCtxCaptured rfl)
    |>.snoc (.stsfld () .executionContextCapturedCallback _ rfl) |>.snoc (.ldsfld () .onExecCtxResumed rfl) |>.snoc
    (.stsfld () .executionContextResumedCallback _ rfl)
  have captured := (bridged.snoc (.ret () rfl)).snoc (.ret () rfl) |>.snoc (.flow () .Capture nofun (.inl rfl))
  exact ⟨_, (captured.snoc (.call () .OnExecutionContextCaptured rfl)).snoc
    (.ldsfld () .executionContextCapturedCallback rfl)⟩

/-- Behind the constructor the hook finds its callback. -/
theorem construction_callbacks_set : ∃ s, Run Step start construction s ∧ CallbacksSet construction ∧
    Initialized construction := by
  obtain ⟨s, run⟩ := construction_runs
  have set : CallbacksSet construction := by
    intro thread field value member bridge
    rcases bridge with rfl | rfl <;> simp_all [construction]
  exact ⟨s, run, set, (callbacks_set_iff run).1.mp set⟩

/-- Before the constructor the hook finds null. -/
theorem premature_unset : ¬ ∀ (labels : List (Label Unit)) (s : State Unit), Run Step start labels s →
    CallbacksSet labels := by
  intro set
  obtain ⟨s, run⟩ := premature_runs
  exact set premature s run () .executionContextCapturedCallback none (by simp [premature]) (.inl rfl) rfl

end Runs

end ContextFlow

end ClrProfiling.Core
