import Mathlib

/-! Machines that run programs of commands at positions, and programs that do what others
do, with probes in front of all they do and of every command they close with. -/

namespace Machine

/-- What stands at a position: an operation, what is said of its place, and where it may lead. -/
structure Command (Op Place Pos : Type) where
  op : Op
  place : Place
  next : Pos
  targets : List Pos

structure Program (Op Place Pos : Type) where
  entry : Pos
  fetch : Pos → Option (Command Op Place Pos)
  handlers : List Pos

/-- What becomes of the positions kept to go back to. -/
inductive Memory where
  | keep
  | remember (target : Nat)
  | forget (count : Nat)

/-- Where control goes from a command: on, to one of its targets or of the handlers of its
program, or back to a position that is kept. -/
inductive Way where
  | next
  | target (index : Nat)
  | handler (index : Nat)
  | remembered

inductive Outcome (State Event : Type) where
  | goesOn (state : State) (events : List Event) (memory : Memory) (way : Way)
  | ends (state : State) (events : List Event)

/-- What operations do to states. They know their place, but not their position. -/
abbrev Semantics (Op Place State Event : Type) : Type := Op → Place → State → Outcome State Event

structure Config (Pos State : Type) where
  position : Pos
  memory : List Pos
  state : State

inductive Turn (Op Pos State Event : Type) where
  | goesOn (config : Config Pos State) (events : List Event)
  | ends (op : Op) (state : State) (events : List Event)
  | stuck

variable {Op Place Pos Pos' State Event : Type}

def Command.memorise (command : Command Op Place Pos) (memory : List Pos) : Memory → Option (List Pos)
  | .keep => some memory
  | .remember target => command.targets[target]?.map (· :: memory)
  | .forget count => some (memory.drop count)

def Program.lead (program : Program Op Place Pos) (command : Command Op Place Pos) (memory : List Pos) :
    Way → Option (Pos × List Pos)
  | .next => some (command.next, memory)
  | .target index => command.targets[index]?.map (·, memory)
  | .handler index => program.handlers[index]?.map (·, memory)
  | .remembered =>
    match memory with
    | [] => none
    | position :: rest => some (position, rest)

def Program.start (program : Program Op Place Pos) (state : State) : Config Pos State := ⟨program.entry, [], state⟩

/-- One turn of the machine. -/
def turn (semantics : Semantics Op Place State Event) (program : Program Op Place Pos) (config : Config Pos State) :
    Turn Op Pos State Event :=
  match program.fetch config.position with
  | none => .stuck
  | some command =>
    match semantics command.op command.place config.state with
    | .ends state events => .ends command.op state events
    | .goesOn state events memory way =>
      match (command.memorise config.memory memory).bind fun memory => program.lead command memory way with
      | none => .stuck
      | some (position, memory) => .goesOn ⟨position, memory, state⟩ events

/-- The configurations a program comes to, with the events on the way. -/
inductive Reaches (semantics : Semantics Op Place State Event) (program : Program Op Place Pos) :
    Config Pos State → List Event → Config Pos State → Prop
  | here : Reaches semantics program config [] config
  | goesOn (first : turn semantics program config = .goesOn middle events)
      (rest : Reaches semantics program middle later last) : Reaches semantics program config (events ++ later) last

/-- A program runs to its end, with all its events, and closes with an operation. -/
inductive Ends (semantics : Semantics Op Place State Event) (program : Program Op Place Pos) :
    Config Pos State → List Event → Op → State → Prop
  | ends (last : turn semantics program config = .ends op state events) :
      Ends semantics program config events op state
  | goesOn (first : turn semantics program config = .goesOn middle events)
      (rest : Ends semantics program middle later op state) : Ends semantics program config (events ++ later) op state

section Runs

variable {semantics : Semantics Op Place State Event} {program : Program Op Place Pos}
  {config middle last : Config Pos State} {events later : List Event}

theorem Reaches.trans (first : Reaches semantics program config events middle)
    (second : Reaches semantics program middle later last) :
    Reaches semantics program config (events ++ later) last := by
  induction first with
  | here => exact second
  | goesOn first rest ih =>
    rw [List.append_assoc]
    exact .goesOn first (ih second)

theorem Reaches.ends {op : Op} {state : State} (first : Reaches semantics program config events middle)
    (second : Ends semantics program middle later op state) :
    Ends semantics program config (events ++ later) op state := by
  induction first with
  | here => exact second
  | goesOn first rest ih =>
    rw [List.append_assoc]
    exact .goesOn first (ih second)

/-- Of two ways a program comes along, one is the beginning of the other. -/
theorem Reaches.linear {other : Config Pos State} {events' : List Event}
    (first : Reaches semantics program config events middle)
    (second : Reaches semantics program config events' other) :
    events' <+: events ∨ ∃ later, events' = events ++ later ∧ Reaches semantics program middle later other := by
  induction first generalizing events' with
  | here => exact .inr ⟨events', rfl, second⟩
  | goesOn first rest ih =>
    cases second with
    | here => exact .inl (List.nil_prefix)
    | goesOn first' rest' =>
      cases first.symm.trans first'
      rcases ih rest' with inside | ⟨later, rfl, beyond⟩
      · exact .inl ((List.prefix_append_right_inj _).mpr inside)
      · exact .inr ⟨later, (List.append_assoc ..).symm, beyond⟩

/-- On the way to its end a program has shown a beginning of its events. -/
theorem Ends.through {op : Op} {state : State} {events' : List Event}
    (ends : Ends semantics program config events op state)
    (reaches : Reaches semantics program config events' middle) :
    ∃ later, events = events' ++ later ∧ Ends semantics program middle later op state := by
  induction reaches generalizing events with
  | here => exact ⟨events, rfl, ends⟩
  | goesOn first rest ih =>
    cases ends with
    | ends last => cases first.symm.trans last
    | goesOn first' rest' =>
      cases first.symm.trans first'
      obtain ⟨later, rfl, behind⟩ := ih rest'
      exact ⟨later, (List.append_assoc ..).symm, behind⟩

theorem Ends.unique {op op' : Op} {state state' : State} {events' : List Event}
    (first : Ends semantics program config events op state)
    (second : Ends semantics program config events' op' state') :
    events' = events ∧ op' = op ∧ state' = state := by
  induction first generalizing events' with
  | ends last =>
    cases second with
    | ends last' =>
      cases last.symm.trans last'
      exact ⟨rfl, rfl, rfl⟩
    | goesOn first' _ => cases last.symm.trans first'
  | goesOn first _ ih =>
    cases second with
    | ends last' => cases first.symm.trans last'
    | goesOn first' rest' =>
      cases first.symm.trans first'
      obtain ⟨rfl, rfl, rfl⟩ := ih rest'
      exact ⟨rfl, rfl, rfl⟩

end Runs

section Corridors

/-- Operations that stand one behind the other. -/
inductive Program.Corridor (program : Program Op Place Pos) : Pos → List Op → Pos → Prop
  | nil : program.Corridor position [] position
  | cons (fetched : program.fetch position = some command) (rest : program.Corridor command.next ops last) :
      program.Corridor position (command.op :: ops) last

/-- What a sequence of operations that go on does, wherever it stands. -/
inductive Passes (semantics : Semantics Op Place State Event) : State → List Op → List Event → State → Prop
  | nil : Passes semantics state [] [] state
  | cons (first : ∀ place, semantics op place state = .goesOn middle events .keep .next)
      (rest : Passes semantics middle ops later last) : Passes semantics state (op :: ops) (events ++ later) last

/-- A sequence of operations shows its events, and leaves every state as it is. -/
def Transparent (semantics : Semantics Op Place State Event) (ops : List Op) (events : List Event) : Prop :=
  ∀ state, Passes semantics state ops events state

variable {semantics : Semantics Op Place State Event} {program : Program Op Place Pos}

theorem Program.Corridor.reaches {position last : Pos} {ops : List Op} {state behind : State} {events : List Event}
    (corridor : program.Corridor position ops last) (passes : Passes semantics state ops events behind)
    (memory : List Pos) : Reaches semantics program ⟨position, memory, state⟩ events ⟨last, memory, behind⟩ := by
  induction corridor generalizing state events with
  | nil =>
    cases passes
    exact .here
  | cons fetched rest ih =>
    cases passes with
    | cons first passes =>
      apply Reaches.goesOn _ (ih passes)
      simp only [turn, fetched, first]
      rfl

end Corridors

section Probes

/-- A program with the probe `enter` in front of its entry and the probe `exit` in front of every
closing operation, at the positions related to those of the program without them. -/
structure Instruments (program : Program Op Place Pos) (program' : Program Op Place Pos') (closing : Op → Bool)
    (enter exit : List Op) (related : Pos → Pos' → Prop) : Prop where
  entry : ∃ position, related program.entry position ∧ program'.Corridor program'.entry enter position
  handlers : List.Forall₂ related program.handlers program'.handlers
  absent : related position position' → program.fetch position = none → program'.fetch position' = none
  plain : related position position' → program.fetch position = some command → closing command.op = false →
    ∃ command', program'.fetch position' = some command' ∧ command'.op = command.op ∧ command'.place = command.place ∧
      related command.next command'.next ∧ List.Forall₂ related command.targets command'.targets
  closes : related position position' → program.fetch position = some command → closing command.op = true →
    ∃ last command', program'.Corridor position' exit last ∧ program'.fetch last = some command' ∧
      command'.op = command.op ∧ command'.place = command.place

/-- Closing operations end the program, and show nothing. -/
def Closes (semantics : Semantics Op Place State Event) (closing : Op → Bool) : Prop :=
  ∀ op place state, closing op = true → ∃ behind, semantics op place state = .ends behind []

/-- The events behind a closing operation, or behind any other. -/
def closed (closing : Op → Bool) (closes : List Event) (op : Op) : List Event := if closing op then closes else []

/-- A program does what another one does, and shows `opens` first and `closes` in front of the
closing operation it ends with. -/
structure Brackets (semantics : Semantics Op Place State Event) (program : Program Op Place Pos)
    (program' : Program Op Place Pos') (closing : Op → Bool) (opens closes : List Event) : Prop where
  ends : ∀ state events' op behind, Ends semantics program' (program'.start state) events' op behind ↔
    ∃ events, Ends semantics program (program.start state) events op behind ∧
      events' = opens ++ events ++ closed closing closes op
  shows : ∀ state events config, Reaches semantics program (program.start state) events config →
    ∃ config', Reaches semantics program' (program'.start state) (opens ++ events) config' ∧
      config'.state = config.state
  shown : ∀ state events' config', Reaches semantics program' (program'.start state) events' config' →
    (∃ events config, Reaches semantics program (program.start state) events config ∧ events' <+: opens ++ events) ∨
      ∃ events op behind, Ends semantics program (program.start state) events op behind ∧
        events' <+: opens ++ events ++ closed closing closes op

/-- Configurations at related positions, in one state. -/
structure Alike (related : Pos → Pos' → Prop) (config : Config Pos State) (config' : Config Pos' State) : Prop where
  position : related config.position config'.position
  memory : List.Forall₂ related config.memory config'.memory
  state : config'.state = config.state

/-- Turns to configurations that are alike, to one end, or to none. -/
inductive TurnsAlike (related : Pos → Pos' → Prop) : Turn Op Pos State Event → Turn Op Pos' State Event → Prop
  | goesOn (alike : Alike related config config') : TurnsAlike related (.goesOn config events) (.goesOn config' events)
  | ends : TurnsAlike related (.ends op state events) (.ends op state events)
  | stuck : TurnsAlike related .stuck .stuck

variable {program : Program Op Place Pos} {program' : Program Op Place Pos'} {closing : Op → Bool}
  {enter exit : List Op}
  {related : Pos → Pos' → Prop} {semantics : Semantics Op Place State Event} {config : Config Pos State}
  {config' : Config Pos' State} {opens closes : List Event}

private theorem related_getElem? {positions : List Pos} {positions' : List Pos'}
    (alike : List.Forall₂ related positions positions') (index : Nat) :
    Option.Rel related positions[index]? positions'[index]? := by
  induction alike generalizing index with
  | nil => exact .none
  | cons head tail ih =>
    cases index with
    | zero => exact .some head
    | succ index => exact ih index

private theorem rel_map {Left Right Left' Right' : Type} {relation : Left → Right → Prop}
    {relation' : Left' → Right' → Prop} {left : Option Left} {right : Option Right} {change : Left → Left'}
    {change' : Right → Right'} (rel : Option.Rel relation left right)
    (changes : ∀ left right, relation left right → relation' (change left) (change' right)) :
    Option.Rel relation' (left.map change) (right.map change') := by
  cases rel with
  | none => exact .none
  | some holds => exact .some (changes _ _ holds)

private theorem related_drop {positions : List Pos} {positions' : List Pos'}
    (alike : List.Forall₂ related positions positions') (count : Nat) :
    List.Forall₂ related (positions.drop count) (positions'.drop count) := by
  induction alike generalizing count with
  | nil => simp
  | cons head tail ih =>
    cases count with
    | zero => exact .cons head tail
    | succ count => exact ih count

private theorem memorise_alike {command : Command Op Place Pos} {command' : Command Op Place Pos'}
    (targets : List.Forall₂ related command.targets command'.targets) {memory : List Pos} {memory' : List Pos'}
    (alike : List.Forall₂ related memory memory') (change : Memory) :
    Option.Rel (List.Forall₂ related) (command.memorise memory change) (command'.memorise memory' change) := by
  cases change with
  | keep => exact .some alike
  | forget count => exact .some (related_drop alike count)
  | remember target =>
    apply rel_map (related_getElem? targets target)
    intro position position' holds
    exact .cons holds alike

private theorem Instruments.lead (instruments : Instruments program program' closing enter exit related)
    {command : Command Op Place Pos} {command' : Command Op Place Pos'} (next : related command.next command'.next)
    (targets : List.Forall₂ related command.targets command'.targets) {memory : List Pos} {memory' : List Pos'}
    (alike : List.Forall₂ related memory memory') (way : Way) :
    Option.Rel (fun led led' => related led.1 led'.1 ∧ List.Forall₂ related led.2 led'.2)
      (program.lead command memory way) (program'.lead command' memory' way) := by
  cases way with
  | next => exact .some ⟨next, alike⟩
  | target index => exact rel_map (related_getElem? targets index) fun _ _ holds => ⟨holds, alike⟩
  | handler index => exact rel_map (related_getElem? instruments.handlers index) fun _ _ holds => ⟨holds, alike⟩
  | remembered =>
    cases alike with
    | nil => exact .none
    | cons head tail => exact .some ⟨head, tail⟩

/-- One turn, where no closing operation stands. -/
private theorem Instruments.turns (semantics : Semantics Op Place State Event)
    (instruments : Instruments program program' closing enter exit related) (alike : Alike related config config')
    (plain : ∀ command, program.fetch config.position = some command → closing command.op = false) :
    TurnsAlike related (turn semantics program config) (turn semantics program' config') := by
  cases fetched : program.fetch config.position with
  | none =>
    simp only [turn, fetched, instruments.absent alike.position fetched]
    exact .stuck
  | some command =>
    obtain ⟨command', fetched', op, place, next, targets⟩ :=
      instruments.plain alike.position fetched (plain command fetched)
    simp only [turn, fetched, fetched', op, place, alike.state]
    cases semantics command.op command.place config.state with
    | ends state events => exact .ends
    | goesOn state events change way =>
      have kept := memorise_alike targets alike.memory change
      dsimp only
      revert kept
      generalize command.memorise config.memory change = memory
      generalize command'.memorise config'.memory change = memory'
      rintro (kept | -)
      · have led := instruments.lead next targets kept way
        dsimp only [Option.bind_some]
        revert led
        generalize program.lead command _ way = target
        generalize program'.lead command' _ way = target'
        rintro (led | -)
        · exact .goesOn ⟨led.1, led.2, rfl⟩
        · exact .stuck
      · exact .stuck

private theorem Instruments.closing_ends (instruments : Instruments program program' closing enter exit related)
    (ending : Closes semantics closing) (shown : Transparent semantics exit closes)
    (alike : Alike related config config')
    {command : Command Op Place Pos} (fetched : program.fetch config.position = some command)
    (isClosing : closing command.op = true) :
    ∃ behind, turn semantics program config = .ends command.op behind [] ∧
      Ends semantics program' config' closes command.op behind := by
  obtain ⟨last, command', corridor, fetched', op, place⟩ := instruments.closes alike.position fetched isClosing
  obtain ⟨behind, run⟩ := ending command.op command.place config.state isClosing
  refine ⟨behind, by simp only [turn, fetched, run], ?_⟩
  have reaches := corridor.reaches (shown config.state) config'.memory
  rw [← alike.state] at reaches
  have last : turn semantics program' ⟨last, config'.memory, config'.state⟩ = .ends command.op behind [] := by
    simp only [turn, fetched', op, place, alike.state, run]
  have whole := reaches.ends (.ends last)
  rwa [List.append_nil] at whole

theorem turn_ends_op {op : Op} {state : State} {events : List Event}
    (ended : turn semantics program config = .ends op state events) :
    ∃ command, program.fetch config.position = some command ∧ command.op = op := by
  unfold turn at ended
  split at ended
  · cases ended
  · rename_i command fetched
    split at ended
    · cases ended
      exact ⟨command, fetched, rfl⟩
    · split at ended <;> cases ended

private theorem closing_or_plain (closing : Op → Bool) (program : Program Op Place Pos) (position : Pos) :
    (∃ command, program.fetch position = some command ∧ closing command.op = true) ∨
      ∀ command, program.fetch position = some command → closing command.op = false := by
  by_cases found : ∃ command, program.fetch position = some command ∧ closing command.op = true
  · exact .inl found
  · refine .inr fun command fetched => ?_
    by_contra isClosing
    exact found ⟨command, fetched, by simpa using isClosing⟩

private theorem closed_of_plain {op : Op} {state : State} {events : List Event}
    (ended : turn semantics program config = .ends op state events)
    (plain : ∀ command, program.fetch config.position = some command → closing command.op = false) :
    closed closing closes op = [] := by
  obtain ⟨command, fetched, rfl⟩ := turn_ends_op ended
  exact if_neg (by simp [plain command fetched])

private theorem Instruments.ends_forward (instruments : Instruments program program' closing enter exit related)
    (ending : Closes semantics closing) (shown : Transparent semantics exit closes) {op : Op} {behind : State}
    {events : List Event} (ends : Ends semantics program config events op behind)
    (alike : Alike related config config') :
    Ends semantics program' config' (events ++ closed closing closes op) op behind := by
  induction ends generalizing config' with
  | ends last =>
    rcases closing_or_plain closing program _ with ⟨command, fetched, isClosing⟩ | plain
    · obtain ⟨behind, here, there⟩ := instruments.closing_ends ending shown alike fetched isClosing
      cases last.symm.trans here
      rwa [closed, if_pos isClosing]
    · have turns := instruments.turns semantics alike plain
      rw [closed_of_plain last plain, List.append_nil]
      rw [last] at turns
      generalize ended : turn semantics program' config' = turn' at turns
      cases turns
      exact .ends ended
  | goesOn first rest ih =>
    rcases closing_or_plain closing program _ with ⟨command, fetched, isClosing⟩ | plain
    · obtain ⟨behind, here, -⟩ := instruments.closing_ends ending shown alike fetched isClosing
      cases first.symm.trans here
    · have turns := instruments.turns semantics alike plain
      rw [first] at turns
      generalize gone : turn semantics program' config' = turn' at turns
      cases turns with
      | goesOn alike =>
        rw [List.append_assoc]
        exact .goesOn gone (ih alike)

private theorem Instruments.ends_backward (instruments : Instruments program program' closing enter exit related)
    (ending : Closes semantics closing) (shown : Transparent semantics exit closes) {op : Op} {behind : State}
    {events' : List Event} (ends : Ends semantics program' config' events' op behind)
    (alike : Alike related config config') :
    ∃ events, Ends semantics program config events op behind ∧ events' = events ++ closed closing closes op := by
  induction ends generalizing config with
  | ends last =>
    rcases closing_or_plain closing program config.position with ⟨command, fetched, isClosing⟩ | plain
    · obtain ⟨behind, here, there⟩ := instruments.closing_ends ending shown alike fetched isClosing
      obtain ⟨rfl, rfl, rfl⟩ := there.unique (.ends last)
      exact ⟨[], .ends here, by rw [closed, if_pos isClosing, List.nil_append]⟩
    · have turns := instruments.turns semantics alike plain
      rw [last] at turns
      generalize ended : turn semantics program config = turned at turns
      cases turns
      exact ⟨_, .ends ended, by rw [closed_of_plain ended plain, List.append_nil]⟩
  | goesOn first rest ih =>
    rcases closing_or_plain closing program config.position with ⟨command, fetched, isClosing⟩ | plain
    · obtain ⟨behind, here, there⟩ := instruments.closing_ends ending shown alike fetched isClosing
      obtain ⟨same, rfl, rfl⟩ := there.unique (.goesOn first rest)
      exact ⟨[], .ends here, by rw [closed, if_pos isClosing, List.nil_append, same]⟩
    · have turns := instruments.turns semantics alike plain
      rw [first] at turns
      generalize gone : turn semantics program config = turned at turns
      cases turns with
      | goesOn alike =>
        obtain ⟨events, there, rfl⟩ := ih alike
        exact ⟨_, .goesOn gone there, (List.append_assoc ..).symm⟩

private theorem Instruments.shows (instruments : Instruments program program' closing enter exit related)
    (ending : Closes semantics closing) {last : Config Pos State} {events : List Event}
    (reaches : Reaches semantics program config events last) (alike : Alike related config config') :
    ∃ last', Reaches semantics program' config' events last' ∧ Alike related last last' := by
  induction reaches generalizing config' with
  | here => exact ⟨config', .here, alike⟩
  | @goesOn config _ _ _ _ first rest ih =>
    have plain : ∀ command, program.fetch config.position = some command → closing command.op = false := by
      intro command fetched
      by_contra isClosing
      obtain ⟨behind, run⟩ := ending command.op command.place config.state (by simpa using isClosing)
      simp only [turn, fetched, run] at first
      cases first
    have turns := instruments.turns semantics alike plain
    rw [first] at turns
    generalize gone : turn semantics program' config' = turn' at turns
    cases turns with
    | goesOn alike =>
      obtain ⟨last', there, alike⟩ := ih alike
      exact ⟨last', .goesOn gone there, alike⟩

private theorem Instruments.shown (instruments : Instruments program program' closing enter exit related)
    (ending : Closes semantics closing) (shown : Transparent semantics exit closes) {last' : Config Pos' State}
    {events' : List Event} (reaches : Reaches semantics program' config' events' last')
    (alike : Alike related config config') :
    (∃ last, Reaches semantics program config events' last) ∨
      ∃ events op behind, Ends semantics program config events op behind ∧
        events' <+: events ++ closed closing closes op := by
  induction reaches generalizing config with
  | here => exact .inl ⟨config, .here⟩
  | goesOn first rest ih =>
    rcases closing_or_plain closing program config.position with ⟨command, fetched, isClosing⟩ | plain
    · obtain ⟨behind, here, there⟩ := instruments.closing_ends ending shown alike fetched isClosing
      obtain ⟨later, whole, -⟩ := there.through (.goesOn first rest)
      refine .inr ⟨[], command.op, behind, .ends here, ?_⟩
      rw [closed, if_pos isClosing, List.nil_append, whole]
      exact List.prefix_append ..
    · have turns := instruments.turns semantics alike plain
      rw [first] at turns
      generalize gone : turn semantics program config = turned at turns
      cases turns with
      | goesOn alike =>
        rcases ih alike with ⟨last, there⟩ | ⟨events, op, behind, there, inside⟩
        · exact .inl ⟨last, .goesOn gone there⟩
        · refine .inr ⟨_, op, behind, .goesOn gone there, ?_⟩
          rw [List.append_assoc]
          exact (List.prefix_append_right_inj _).mpr inside

/-- Probes that leave every state as it is bracket what a program does. -/
theorem Instruments.brackets (instruments : Instruments program program' closing enter exit related)
    (ending : Closes semantics closing) (opening : Transparent semantics enter opens)
    (shown : Transparent semantics exit closes) : Brackets semantics program program' closing opens closes := by
  obtain ⟨position, related, corridor⟩ := instruments.entry
  have opened (state : State) : Reaches semantics program' (program'.start state) opens ⟨position, [], state⟩ :=
    corridor.reaches (opening state) []
  have alike (state : State) : Alike _ (program.start state) ⟨position, [], state⟩ := ⟨related, .nil, rfl⟩
  refine ⟨fun state events' op behind => ⟨fun ends => ?_, ?_⟩, fun state events config reaches => ?_,
    fun state events' config' reaches => ?_⟩
  · obtain ⟨later, rfl, behindEntry⟩ := ends.through (opened state)
    obtain ⟨events, there, rfl⟩ := instruments.ends_backward ending shown behindEntry (alike state)
    exact ⟨events, there, (List.append_assoc ..).symm⟩
  · rintro ⟨events, ends, rfl⟩
    rw [List.append_assoc]
    exact (opened state).ends (instruments.ends_forward ending shown ends (alike state))
  · obtain ⟨last', there, alike⟩ := instruments.shows ending reaches (alike state)
    exact ⟨last', (opened state).trans there, alike.state⟩
  · rcases (opened state).linear reaches with inside | ⟨later, rfl, beyond⟩
    · exact .inl ⟨[], program.start state, .here, by rwa [List.append_nil]⟩
    · rcases instruments.shown ending shown beyond (alike state) with
        ⟨last, there⟩ | ⟨events, op, behind, there, inside⟩
      · exact .inl ⟨later, last, there, List.prefix_rfl⟩
      · refine .inr ⟨events, op, behind, there, ?_⟩
        rw [List.append_assoc]
        exact (List.prefix_append_right_inj _).mpr inside

end Probes

section Layers

variable {Pos'' : Type} {program : Program Op Place Pos} {program' : Program Op Place Pos'}
  {program'' : Program Op Place Pos''} {closing : Op → Bool} {semantics : Semantics Op Place State Event}
  {opens opens' closes closes' : List Event}

theorem closed_append (op : Op) :
    closed closing (closes ++ closes') op = closed closing closes op ++ closed closing closes' op := by
  unfold closed
  split <;> simp

@[simp] theorem closed_nil (closing : Op → Bool) (op : Op) : closed closing ([] : List Event) op = [] := ite_self _

theorem Brackets.refl (semantics : Semantics Op Place State Event) (program : Program Op Place Pos)
    (closing : Op → Bool) :
    Brackets semantics program program closing [] [] where
  ends state events' op behind := by simp
  shows state events config reaches := ⟨config, reaches, rfl⟩
  shown state events' config' reaches := .inl ⟨events', config', reaches, List.prefix_rfl⟩

/-- Brackets around brackets. -/
theorem Brackets.trans (inner : Brackets semantics program program' closing opens closes)
    (outer : Brackets semantics program' program'' closing opens' closes') :
    Brackets semantics program program'' closing (opens' ++ opens) (closes ++ closes') where
  ends state events'' op behind := by
    rw [outer.ends]
    constructor
    · rintro ⟨events', ends, rfl⟩
      obtain ⟨events, there, rfl⟩ := (inner.ends ..).mp ends
      exact ⟨events, there, by simp only [closed_append, List.append_assoc]⟩
    · rintro ⟨events, ends, rfl⟩
      exact ⟨_, (inner.ends ..).mpr ⟨events, ends, rfl⟩, by simp only [closed_append, List.append_assoc]⟩
  shows state events config reaches := by
    obtain ⟨config', reaches, same⟩ := inner.shows state events config reaches
    obtain ⟨config'', reaches, same'⟩ := outer.shows state _ config' reaches
    exact ⟨config'', by rwa [List.append_assoc], same'.trans same⟩
  shown state events'' config'' reaches := by
    rcases outer.shown state events'' config'' reaches with
      ⟨events', config', reaches, inside⟩ | ⟨events', op, behind, ends, inside⟩
    · rcases inner.shown state events' config' reaches with
        ⟨events, config, reaches, inside'⟩ | ⟨events, op, behind, ends, inside'⟩
      · refine .inl ⟨events, config, reaches, inside.trans ?_⟩
        rw [List.append_assoc]
        exact (List.prefix_append_right_inj _).mpr inside'
      · refine .inr ⟨events, op, behind, ends, inside.trans (((List.prefix_append_right_inj _).mpr inside').trans ?_)⟩
        simp only [closed_append, ← List.append_assoc]
        exact List.prefix_append ..
    · obtain ⟨events, there, rfl⟩ := (inner.ends ..).mp ends
      refine .inr ⟨events, op, behind, there, ?_⟩
      simpa only [closed_append, List.append_assoc] using inside

end Layers

end Machine
