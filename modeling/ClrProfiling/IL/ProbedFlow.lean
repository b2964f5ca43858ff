import ClrProfiling.IL.ControlFlow
import ClrProfiling.IL.Probing

/-! The control flow of a probed list against the one of the list it was made from. -/

namespace ClrProfiling

open LinkedRing FlowGraph

/-- The instruction a node is read as: its own where it is an original one, and the RET
a new RET stands for. -/
def Probed.shown : Probed → Option Instr
  | ⟨node, .original⟩ => some node
  | ⟨_, .returns ret⟩ => some ret
  | _ => none

/-- The instruction control shows next at a node, `first` being the one behind the enter probe. -/
def Probed.ahead (first : Option Instr) : Probed → Option Instr
  | ⟨node, .original⟩ => some node
  | ⟨_, .enterProbe⟩ => first
  | ⟨_, .replaced ret⟩ => some ret
  | ⟨_, .exitProbe ret⟩ => some ret
  | ⟨_, .returns ret⟩ => some ret

/-- Whether a node was added, rather than kept or turned into a NOP. -/
def Probed.added : Probed → Bool
  | ⟨_, .original⟩ => false
  | ⟨_, .replaced _⟩ => false
  | _ => true

/-- Erasing the probes and the NOPs, and reading each new RET as the RET it replaces. -/
def erase (probed : List Probed) (node : Instr) : Option Instr :=
  (probed.find? fun entry => entry.node = node).bind Probed.shown

/-- The lists a list can be turned into by exit probes at some of its RETs. -/
inductive Expanded (onExitHook : UInt32) (hookArg : Option UInt64) : List Instr → List Probed → Prop
  | nil : Expanded onExitHook hookArg [] []
  | keep (node : Instr) (rest : Expanded onExitHook hookArg nodes probed) :
      Expanded onExitHook hookArg (node :: nodes) (⟨node, .original⟩ :: probed)
  | ret (node : Instr) (opcode : node.opcode = CEE_RET) (brk newRet : Ptr)
      (rest : Expanded onExitHook hookArg nodes probed) :
      Expanded onExitHook hookArg (node :: nodes)
        (⟨{ node with opcode := CEE_NOP }, .replaced node⟩ ::
          ((probeNodes brk onExitHook hookArg).map (⟨·, .exitProbe node⟩) ++
            ⟨⟨newRet, CEE_RET, 0⟩, .returns node⟩ :: probed))

section Expanded

variable {platform : Platform} {onExitHook : UInt32} {hookArg : Option UInt64}

theorem expanded_exitProbed (brk : Ptr) (nodes : List Instr) :
    Expanded onExitHook hookArg nodes (exitProbed onExitHook hookArg brk nodes) := by
  induction nodes generalizing brk with
  | nil => exact .nil
  | cons node rest ih =>
    rw [exitProbed]
    by_cases ret : node.opcode = CEE_RET
    · rw [if_pos ret]
      exact .ret node ret _ _ (ih _)
    · rw [if_neg ret]
      exact .keep node (ih brk)

theorem expanded_original (nodes : List Instr) : Expanded onExitHook hookArg nodes (nodes.map (⟨·, .original⟩)) := by
  induction nodes with
  | nil => exact .nil
  | cons node rest ih => exact .keep node ih

/-- The opcodes probes are made of and put in place of RETs. -/
def hookOpcodes : List Nat := [CEE_NOP, CEE_LDC_I4, CEE_CALL, CEE_RET]

theorem external_of_hook {node : Instr} (hook : node.opcode ∈ hookOpcodes) : node.isArgument platform = false := by
  have page := platform.onePage
  have small : node.opcode < 0x100 := by
    simp only [hookOpcodes, List.mem_cons, List.not_mem_nil, or_false] at hook
    rcases hook with opcode | opcode | opcode | opcode <;> rw [opcode] <;> decide
  simp only [Instr.isArgument, OpcodeDef.CEE_SWITCH_ARG, beq_eq_false_iff_ne]
  omega

/-- What an entry says about its node. -/
def Probed.Sound (nodes : List Instr) : Probed → Prop
  | ⟨node, .original⟩ => node ∈ nodes
  | ⟨node, .enterProbe⟩ => node.opcode = CEE_LDC_I4 ∨ node.opcode = CEE_CALL
  | ⟨node, .replaced ret⟩ => node = { ret with opcode := CEE_NOP } ∧ ret ∈ nodes ∧ ret.opcode = CEE_RET
  | ⟨node, .exitProbe ret⟩ => (node.opcode = CEE_LDC_I4 ∨ node.opcode = CEE_CALL) ∧ ret ∈ nodes ∧ ret.opcode = CEE_RET
  | ⟨node, .returns ret⟩ => node.opcode = CEE_RET ∧ ret ∈ nodes ∧ ret.opcode = CEE_RET

theorem probeNodes_opcode (member : node ∈ probeNodes brk hookMethod hookArg) :
    node.opcode = CEE_LDC_I4 ∨ node.opcode = CEE_CALL := by
  cases hookArg with
  | none => exact .inr (by rw [List.mem_singleton.mp member])
  | some argument =>
    rcases List.mem_cons.mp member with rfl | last
    · exact .inl rfl
    · exact .inr (by rw [List.mem_singleton.mp last])

theorem Probed.Sound.mono {entry : Probed} (sound : entry.Sound nodes) (more : nodes ⊆ nodes') :
    entry.Sound nodes' := by
  obtain ⟨node, role⟩ := entry
  cases role with
  | original => exact more sound
  | enterProbe => exact sound
  | replaced ret => exact ⟨sound.1, more sound.2.1, sound.2.2⟩
  | exitProbe ret => exact ⟨sound.1, more sound.2.1, sound.2.2⟩
  | returns ret => exact ⟨sound.1, more sound.2.1, sound.2.2⟩

theorem Expanded.sound (expanded : Expanded onExitHook hookArg nodes probed) : ∀ entry ∈ probed, entry.Sound nodes := by
  induction expanded with
  | nil => simp
  | @keep nodes probed node _ ih =>
    refine List.forall_mem_cons.mpr ⟨List.mem_cons_self .., fun entry member => ?_⟩
    exact (ih entry member).mono (List.subset_cons_self ..)
  | @ret nodes probed node opcode brk newRet _ ih =>
    have here : node ∈ node :: nodes := List.mem_cons_self ..
    refine List.forall_mem_cons.mpr ⟨⟨rfl, here, opcode⟩, List.forall_mem_append.mpr ⟨fun entry member => ?_, ?_⟩⟩
    · obtain ⟨probe, listed, rfl⟩ := List.mem_map.mp member
      exact ⟨probeNodes_opcode listed, here, opcode⟩
    · refine List.forall_mem_cons.mpr ⟨⟨rfl, here, opcode⟩, fun entry member => ?_⟩
      exact (ih entry member).mono (List.subset_cons_self ..)

theorem Probed.Sound.hook_or_original {entry : Probed} (sound : entry.Sound nodes) :
    entry = ⟨entry.node, .original⟩ ∨ entry.node.opcode ∈ hookOpcodes := by
  obtain ⟨node, role⟩ := entry
  cases role with
  | original => exact .inl rfl
  | enterProbe => exact .inr (by rcases sound with opcode | opcode <;> simp [hookOpcodes, opcode])
  | replaced ret => exact .inr (by simp [hookOpcodes, sound.1])
  | exitProbe ret => exact .inr (by rcases sound.1 with opcode | opcode <;> simp [hookOpcodes, opcode])
  | returns ret => exact .inr (by simp [hookOpcodes, sound.1])

theorem plain_of_hook {node : Instr} (hook : node.opcode ∈ hookOpcodes) : ¬node.isBranch platform := by
  simp only [hookOpcodes, List.mem_cons, List.not_mem_nil, or_false] at hook
  rcases hook with opcode | opcode | opcode | opcode <;>
    simp [Instr.isBranch, opcode, platform.flags_CEE_NOP, platform.flags_CEE_LDC_I4, platform.flags_CEE_CALL,
      platform.flags_CEE_RET, OPCODEFLAGS_BranchTarget]

theorem Probed.Sound.original_of_branch {entry : Probed} (sound : entry.Sound nodes)
    (branch : entry.node.isBranch platform) : entry = ⟨entry.node, .original⟩ :=
  sound.hook_or_original.resolve_right fun hook => plain_of_hook hook branch

/-- A hidden node leads on to its successor in the list. -/
def Joined (platform : Platform) (first : Option Instr) (entry other : Probed) : Prop :=
  entry.shown = none → other.ahead first = entry.ahead first ∧ other.node.isArgument platform = false

private theorem joined_probe {first : Option Instr} {ret : Instr} {last : Probed} {after : List Probed}
    (onExitHook : UInt32) (hookArg : Option UInt64) (brk : Ptr) (ahead : last.ahead first = some ret)
    (external : last.node.isArgument platform = false)
    (chain : (last :: after).IsChain (Joined platform first)) :
    ((probeNodes brk onExitHook hookArg).map (⟨·, .exitProbe ret⟩ : Instr → Probed) ++ last :: after).IsChain
      (Joined platform first) := by
  cases hookArg with
  | none => exact List.isChain_cons_cons.mpr ⟨fun _ => ⟨ahead, external⟩, chain⟩
  | some argument =>
    exact List.isChain_cons_cons.mpr ⟨fun _ => ⟨rfl, external_of_hook (by simp [hookOpcodes])⟩,
      List.isChain_cons_cons.mpr ⟨fun _ => ⟨ahead, external⟩, chain⟩⟩

theorem Expanded.chain (expanded : Expanded onExitHook hookArg nodes probed) (first : Option Instr) :
    probed.IsChain (Joined platform first) := by
  induction expanded with
  | nil => exact .nil
  | keep node rest ih => exact List.isChain_cons.mpr ⟨fun other _ hidden => absurd hidden (by simp [Probed.shown]), ih⟩
  | @ret nodes probed node opcode brk newRet rest ih =>
    have last : (⟨⟨newRet, CEE_RET, 0⟩, .returns node⟩ :: probed).IsChain (Joined platform first) :=
      List.isChain_cons.mpr ⟨fun other _ hidden => absurd hidden (by simp [Probed.shown]), ih⟩
    have probe := joined_probe onExitHook hookArg brk rfl
      (external_of_hook (by simp [hookOpcodes])) last
    refine List.isChain_cons.mpr ⟨fun other member _ => ?_, probe⟩
    cases hookArg with
    | none =>
      obtain rfl : _ = other := by simpa [probeNodes] using member
      exact ⟨rfl, external_of_hook (by simp [hookOpcodes])⟩
    | some argument =>
      obtain rfl : _ = other := by simpa [probeNodes] using member
      exact ⟨rfl, external_of_hook (by simp [hookOpcodes])⟩

theorem Expanded.last_shown (expanded : Expanded onExitHook hookArg nodes probed) :
    ∀ entry ∈ probed.getLast?, entry.shown ≠ none := by
  induction expanded with
  | nil => simp
  | @keep nodes probed node rest ih =>
    intro entry member
    cases probed with
    | nil =>
      obtain rfl : _ = entry := by simpa using member
      simp [Probed.shown]
    | cons other others => exact ih entry (by simpa using member)
  | @ret nodes probed node opcode brk newRet rest ih =>
    intro entry member
    cases probed with
    | nil =>
      obtain rfl : _ = entry := by simpa [List.getLast?_cons] using member
      simp [Probed.shown]
    | cons other others => exact ih entry (by simpa [List.getLast?_cons] using member)

private theorem split_behind {chunk before after probed : List Probed} (absent : entry ∉ chunk)
    (whole : before ++ entry :: after = chunk ++ probed) : ∃ earlier, earlier ++ entry :: after = probed := by
  rcases List.append_eq_append_iff.mp whole with ⟨inside, rfl, remaining⟩ | ⟨inside, rfl, remaining⟩
  · cases inside with
    | nil => exact ⟨[], remaining⟩
    | cons other inside =>
      obtain ⟨rfl, -⟩ := List.cons_eq_cons.mp remaining
      exact absurd (List.mem_append_right before (List.mem_cons_self ..)) absent
  · exact ⟨inside, remaining.symm⟩

/-- The part of an expansion behind an original node is the expansion of the part behind it. -/
theorem Expanded.cut_original (expanded : Expanded onExitHook hookArg nodes probed)
    (whole : before ++ ⟨node, .original⟩ :: after = probed) :
    ∃ front back, nodes = front ++ node :: back ∧ Expanded onExitHook hookArg back after := by
  induction expanded generalizing before with
  | nil => simp at whole
  | @keep nodes probed other rest ih =>
    cases before with
    | nil =>
      obtain ⟨same, rfl⟩ := List.cons_eq_cons.mp whole
      cases same
      exact ⟨[], nodes, rfl, rest⟩
    | cons entry before =>
      obtain ⟨front, back, rfl, later⟩ := ih (List.cons_eq_cons.mp whole).2
      exact ⟨other :: front, back, rfl, later⟩
  | @ret nodes probed ret opcode brk newRet rest ih =>
    have behind : before ++ ⟨node, .original⟩ :: after =
        (⟨{ ret with opcode := CEE_NOP }, .replaced ret⟩ ::
          (probeNodes brk onExitHook hookArg).map (⟨·, .exitProbe ret⟩) ++ [⟨⟨newRet, CEE_RET, 0⟩, .returns ret⟩]) ++
          probed := by
      simpa using whole
    obtain ⟨earlier, split⟩ := split_behind (by simp) behind
    obtain ⟨front, back, rfl, later⟩ := ih split
    exact ⟨ret :: front, back, rfl, later⟩

/-- The entry an original node is turned into, or starts. -/
theorem Expanded.entry (expanded : Expanded onExitHook hookArg nodes probed) (first : Option Instr)
    (member : node ∈ nodes) :
    ∃ entry ∈ probed, entry.node.ptr = node.ptr ∧ entry.ahead first = some node ∧ entry.added = false := by
  induction expanded with
  | nil => simp at member
  | keep other rest ih =>
    rcases List.mem_cons.mp member with rfl | later
    · exact ⟨_, List.mem_cons_self .., rfl, rfl, rfl⟩
    · obtain ⟨entry, listed, holds⟩ := ih later
      exact ⟨entry, List.mem_cons_of_mem _ listed, holds⟩
  | ret ret opcode brk newRet rest ih =>
    rcases List.mem_cons.mp member with rfl | later
    · exact ⟨_, List.mem_cons_self .., rfl, rfl, rfl⟩
    · obtain ⟨entry, listed, holds⟩ := ih later
      exact ⟨entry, by simp [listed], holds⟩

/-- A new RET stands behind its NOP and its probe. -/
theorem Expanded.cut_returns {node ret : Instr} (expanded : Expanded onExitHook hookArg nodes probed)
    (member : ⟨node, .returns ret⟩ ∈ probed) :
    ∃ before after brk, probed = before ++ ((⟨{ ret with opcode := CEE_NOP }, .replaced ret⟩ : Probed) ::
      (probeNodes brk onExitHook hookArg).map (⟨·, .exitProbe ret⟩) ++ ⟨node, .returns ret⟩ :: after) := by
  induction expanded with
  | nil => simp at member
  | @keep nodes probed other rest ih =>
    rcases List.mem_cons.mp member with same | later
    · cases same
    · obtain ⟨before, after, brk, rfl⟩ := ih later
      exact ⟨_ :: before, after, brk, rfl⟩
  | @ret nodes probed other opcode brk newRet rest ih =>
    rcases List.mem_cons.mp member with same | later
    · cases same
    · rcases List.mem_append.mp later with inProbe | behind
      · simp at inProbe
      · rcases List.mem_cons.mp behind with same | later
        · cases same
          exact ⟨[], probed, brk, rfl⟩
        · obtain ⟨before, after, brk', rfl⟩ := ih later
          exact ⟨⟨{ other with opcode := CEE_NOP }, .replaced other⟩ ::
            ((probeNodes brk onExitHook hookArg).map (⟨·, .exitProbe other⟩) ++
              ⟨⟨newRet, CEE_RET, 0⟩, .returns other⟩ :: before), after, brk', by simp⟩

/-- The `switch` targets at the front of a list are those at the front of its expansion. -/
theorem Expanded.arguments (expanded : Expanded onExitHook hookArg nodes probed) :
    (probed.map Probed.node).takeWhile (Instr.isArgument platform) = nodes.takeWhile (Instr.isArgument platform) := by
  induction expanded with
  | nil => rfl
  | keep node rest ih =>
    rw [List.map_cons]
    by_cases argument : node.isArgument platform = true
    · rw [List.takeWhile_cons_of_pos argument, List.takeWhile_cons_of_pos argument, ih]
    · rw [List.takeWhile_cons_of_neg argument, List.takeWhile_cons_of_neg argument]
  | ret node opcode brk newRet rest ih =>
    have nop : ({ node with opcode := CEE_NOP } : Instr).isArgument platform = false :=
      external_of_hook (by simp [hookOpcodes])
    have ret : node.isArgument platform = false := external_of_hook (by simp [hookOpcodes, opcode])
    rw [List.map_cons, List.takeWhile_cons_of_neg (by rw [nop]; decide),
      List.takeWhile_cons_of_neg (by rw [ret]; decide)]

/-- The instruction behind the `switch` targets at the front of a list, against the one of
its expansion. -/
theorem Expanded.next (expanded : Expanded onExitHook hookArg nodes probed) (platform : Platform)
    (first : Option Instr) :
    match (nodes.dropWhile (Instr.isArgument platform)).head? with
    | none => ((probed.map Probed.node).dropWhile (Instr.isArgument platform)).head? = none
    | some next => ∃ entry ∈ probed, ((probed.map Probed.node).dropWhile (Instr.isArgument platform)).head? =
        some entry.node ∧ entry.ahead first = some next ∧ entry.added = false := by
  induction expanded with
  | nil => rfl
  | @keep nodes probed node rest ih =>
    rw [List.map_cons]
    by_cases argument : node.isArgument platform = true
    · rw [List.dropWhile_cons_of_pos argument, List.dropWhile_cons_of_pos argument]
      cases next : (nodes.dropWhile (Instr.isArgument platform)).head? with
      | none => rwa [next] at ih
      | some other =>
        rw [next] at ih
        obtain ⟨entry, listed, holds⟩ := ih
        exact ⟨entry, List.mem_cons_of_mem _ listed, holds⟩
    · rw [List.dropWhile_cons_of_neg argument, List.dropWhile_cons_of_neg argument]
      exact ⟨_, List.mem_cons_self .., rfl, rfl, rfl⟩
  | ret node opcode brk newRet rest ih =>
    have nop : ({ node with opcode := CEE_NOP } : Instr).isArgument platform = false :=
      external_of_hook (by simp [hookOpcodes])
    have ret : node.isArgument platform = false := external_of_hook (by simp [hookOpcodes, opcode])
    rw [List.map_cons, List.dropWhile_cons_of_neg (by rw [ret]; decide),
      List.dropWhile_cons_of_neg (by rw [nop]; decide)]
    exact ⟨_, List.mem_cons_self .., rfl, rfl, rfl⟩

theorem Expanded.head (expanded : Expanded onExitHook hookArg nodes probed) (first : Option Instr) :
    probed.head?.bind (Probed.ahead first) = nodes.head? := by
  cases expanded <;> rfl

end Expanded

/-- All entries of a probed list. -/
def entries (enter : List Instr) (exits : List Probed) : List Probed := enter.map (⟨·, .enterProbe⟩) ++ exits

/-- A list with its enter probe and its expansion, where no target is a node that was added. -/
structure Probes (platform : Platform) (onExitHook : UInt32) (hookArg : Option UInt64) (nodes enter : List Instr)
    (exits : List Probed) : Prop where
  opens : ∀ node ∈ enter, node.opcode = CEE_LDC_I4 ∨ node.opcode = CEE_CALL
  expanded : Expanded onExitHook hookArg nodes exits
  nodup : (((entries enter exits).map Probed.node).map Instr.ptr).Nodup
  source : (nodes.map Instr.ptr).Nodup
  targets : ∀ node ∈ nodes, node.isBranch platform →
    node.operand ∈ nodes.map Instr.ptr ∨ node.operand ∉ ((entries enter exits).map Probed.node).map Instr.ptr
  first : ∀ node ∈ nodes.head?, node.isArgument platform = false

namespace Probes

variable {platform : Platform} {onExitHook : UInt32} {hookArg : Option UInt64} {nodes enter : List Instr}
  {exits : List Probed}

theorem sound (probes : Probes platform onExitHook hookArg nodes enter exits) :
    ∀ entry ∈ entries enter exits, entry.Sound nodes := by
  refine List.forall_mem_append.mpr ⟨fun entry member => ?_, probes.expanded.sound⟩
  obtain ⟨node, listed, rfl⟩ := List.mem_map.mp member
  exact probes.opens node listed

theorem nodes_nodup (probes : Probes platform onExitHook hookArg nodes enter exits) :
    ((entries enter exits).map Probed.node).Nodup :=
  probes.nodup.of_map

theorem find (probes : Probes platform onExitHook hookArg nodes enter exits) (member : entry ∈ entries enter exits) :
    (entries enter exits).find? (fun other => other.node = entry.node) = some entry := by
  obtain ⟨before, after, split⟩ := List.append_of_mem member
  have nodup := probes.nodes_nodup
  rw [split, List.map_append, List.map_cons, List.nodup_middle, List.nodup_cons] at nodup
  rw [split, List.find?_append, List.find?_eq_none.mpr fun other listed => ?_]
  · simp
  · have apart : other.node ≠ entry.node := fun same =>
      nodup.1 (List.mem_append_left _ (same ▸ List.mem_map_of_mem listed))
    simpa using apart

private theorem joined_enter {first : Option Instr}
    (opens : ∀ node ∈ enter, node.opcode = CEE_LDC_I4 ∨ node.opcode = CEE_CALL)
    (chain : exits.IsChain (Joined platform first))
    (head : ∀ entry ∈ exits.head?, entry.ahead first = first ∧ entry.node.isArgument platform = false) :
    (entries enter exits).IsChain (Joined platform first) := by
  induction enter with
  | nil => exact chain
  | cons node rest ih =>
    obtain ⟨-, opens⟩ := List.forall_mem_cons.mp opens
    refine List.isChain_cons.mpr ⟨fun other member _ => ?_, ih opens⟩
    cases rest with
    | nil => exact head other member
    | cons next rest =>
      obtain rfl : _ = other := by simpa using member
      have probe := opens next (List.mem_cons_self ..)
      exact ⟨rfl, external_of_hook (by rcases probe with opcode | opcode <;> simp [hookOpcodes, opcode])⟩

theorem joined (probes : Probes platform onExitHook hookArg nodes enter exits) :
    (entries enter exits).IsChain (Joined platform nodes.head?) := by
  refine joined_enter probes.opens (probes.expanded.chain _) fun entry member => ?_
  have first := probes.first
  cases probes.expanded with
  | nil => simp at member
  | keep node rest =>
    obtain rfl : _ = entry := by simpa using member
    exact ⟨rfl, first node rfl⟩
  | ret node opcode brk newRet rest =>
    obtain rfl : _ = entry := by simpa using member
    exact ⟨rfl, external_of_hook (by simp [hookOpcodes])⟩

/-- Hidden nodes do nothing but fall through. -/
theorem hidden_opcode (probes : Probes platform onExitHook hookArg nodes enter exits)
    (member : entry ∈ entries enter exits)
    (hidden : entry.shown = none) :
    entry.node.opcode = CEE_NOP ∨ entry.node.opcode = CEE_LDC_I4 ∨ entry.node.opcode = CEE_CALL := by
  have sound := probes.sound entry member
  obtain ⟨node, role⟩ := entry
  cases role with
  | original => simp [Probed.shown] at hidden
  | enterProbe => exact .inr sound
  | replaced ret => exact .inl (by rw [sound.1])
  | exitProbe ret => exact .inr sound.1
  | returns ret => simp [Probed.shown] at hidden

theorem step_hidden (probes : Probes platform onExitHook hookArg nodes enter exits)
    (split : entries enter exits = before ++ entry :: after) (hidden : entry.shown = none) :
    (flowGraph platform ((entries enter exits).map Probed.node)).step entry.node other ↔
      ∃ next rest, after = next :: rest ∧ other = next.node := by
  have member : entry ∈ entries enter exits := by simp [split]
  have opcode := probes.hidden_opcode member hidden
  have plain : ¬entry.node.isBranch platform :=
    plain_of_hook (by rcases opcode with opcode | opcode | opcode <;> simp [hookOpcodes, opcode])
  have notSwitch : entry.node.opcode ≠ CEE_SWITCH := by
    rcases opcode with opcode | opcode | opcode <;> rw [opcode] <;> decide
  have falls : platform.fallsThrough entry.node.opcode = true := by
    rcases opcode with opcode | opcode | opcode <;> rw [opcode]
    · exact platform.nop_falls
    · exact platform.ldc_i4_falls
    · exact platform.call_falls
  have nodup := probes.nodes_nodup
  have joined := probes.joined
  rw [split, List.map_append, List.map_cons] at nodup
  rw [step_of_plain plain notSwitch, and_iff_right (List.mem_map_of_mem member), fallThrough, if_pos falls, split,
    List.map_append, List.map_cons, behind_cut nodup]
  cases after with
  | nil => simp
  | cons next rest =>
    rw [split] at joined
    have external := ((List.isChain_append_cons_cons.mp joined).2.1 hidden).2
    rw [List.map_cons, List.dropWhile_cons_of_neg (by rw [external]; decide)]
    simp [eq_comm]

theorem cut_original (probes : Probes platform onExitHook hookArg nodes enter exits)
    (member : ⟨node, .original⟩ ∈ entries enter exits) :
    ∃ before after front back, entries enter exits = before ++ ⟨node, .original⟩ :: after ∧
      nodes = front ++ node :: back ∧ Expanded onExitHook hookArg back after := by
  rcases List.mem_append.mp member with inEnter | inExits
  · simp at inEnter
  · obtain ⟨before, after, rfl⟩ := List.append_of_mem inExits
    obtain ⟨front, back, split, later⟩ := probes.expanded.cut_original rfl
    exact ⟨enter.map (⟨·, .enterProbe⟩) ++ before, after, front, back, by simp [entries], split, later⟩

theorem jumps_original (probes : Probes platform onExitHook hookArg nodes enter exits)
    (member : ⟨node, .original⟩ ∈ entries enter exits) :
    jumps platform ((entries enter exits).map Probed.node) node = jumps platform nodes node := by
  obtain ⟨before, after, front, back, split, rfl, later⟩ := probes.cut_original member
  have nodup := probes.nodes_nodup
  have source := probes.source.of_map
  rw [split, List.map_append, List.map_cons] at nodup ⊢
  rw [jumps, jumps, behind_cut nodup, behind_cut source, later.arguments]

/-- An original node falls through to the entry of the node it fell through to. -/
theorem falls_original (probes : Probes platform onExitHook hookArg nodes enter exits)
    (member : ⟨node, .original⟩ ∈ entries enter exits) (first : Option Instr) :
    match fallThrough platform nodes node with
    | none => fallThrough platform ((entries enter exits).map Probed.node) node = none
    | some next => ∃ entry ∈ entries enter exits,
        fallThrough platform ((entries enter exits).map Probed.node) node = some entry.node ∧
          entry.ahead first = some next ∧ entry.added = false := by
  obtain ⟨before, after, front, back, split, rfl, later⟩ := probes.cut_original member
  have nodup := probes.nodes_nodup
  have source := probes.source.of_map
  have next := later.next platform first
  rw [split, List.map_append, List.map_cons] at nodup
  rw [split, List.map_append, List.map_cons, fallThrough, fallThrough, behind_cut nodup, behind_cut source]
  by_cases falls : platform.fallsThrough node.opcode = true
  · rw [if_pos falls, if_pos falls]
    cases found : (back.dropWhile (Instr.isArgument platform)).head? with
    | none => rwa [found] at next
    | some other =>
      rw [found] at next
      obtain ⟨entry, listed, holds⟩ := next
      exact ⟨entry, by simp [listed], holds⟩
  · rw [if_neg falls, if_neg falls]

theorem entry_of_target (probes : Probes platform onExitHook hookArg nodes enter exits) (listed : node ∈ nodes) :
    ∃ entry ∈ entries enter exits, entry.node.ptr = node.ptr ∧ entry.ahead nodes.head? = some node ∧
      entry.added = false := by
  obtain ⟨entry, member, holds⟩ := probes.expanded.entry nodes.head? listed
  exact ⟨entry, List.mem_append_right _ member, holds⟩

theorem entry_unique (probes : Probes platform onExitHook hookArg nodes enter exits)
    (first : entry ∈ entries enter exits)
    (second : other ∈ entries enter exits) (same : entry.node.ptr = other.node.ptr) : entry = other := by
  have nodup := probes.nodup
  rw [List.map_map] at nodup
  exact List.inj_on_of_nodup_map nodup first second same

theorem jump_target (probes : Probes platform onExitHook hookArg nodes enter exits)
    (member : node ∈ nodes) (jump : p ∈ jumps platform nodes node) (found : other ∈ entries enter exits)
    (same : other.node.ptr = p) : ∃ next ∈ nodes, next.ptr = p ∧ other.ahead nodes.head? = some next := by
  obtain ⟨branch, listed, isBranch, rfl⟩ := jumps_operand member jump
  have original := (probes.targets branch listed isBranch).resolve_right fun outside =>
    outside (same ▸ List.mem_map_of_mem (List.mem_map_of_mem found))
  obtain ⟨next, inside, target⟩ := List.mem_map.mp original
  obtain ⟨entry, entryMember, entryPtr, ahead, -⟩ := probes.entry_of_target inside
  have one := probes.entry_unique found entryMember (same.trans (target.symm.trans entryPtr.symm))
  exact ⟨next, inside, target, one ▸ ahead⟩

theorem original_mem (probes : Probes platform onExitHook hookArg nodes enter exits)
    (member : ⟨node, .original⟩ ∈ entries enter exits) : node ∈ nodes :=
  probes.sound _ member

theorem no_step_ret {list : List Instr} (ret : node.opcode = CEE_RET) : ¬(flowGraph platform list).step node other := by
  have plain : ¬node.isBranch platform := plain_of_hook (by simp [hookOpcodes, ret])
  have notSwitch : node.opcode ≠ CEE_SWITCH := by rw [ret]; decide
  rw [step_of_plain plain notSwitch, fallThrough, ret, platform.ret_leaves]
  simp

theorem erase_eq (probes : Probes platform onExitHook hookArg nodes enter exits)
    (member : entry ∈ entries enter exits) :
    erase (entries enter exits) entry.node = entry.shown := by
  rw [erase, probes.find member, Option.bind_some]

/-- What control shows next at a node of a probed list. -/
def aheadOf (list : List Probed) (first : Option Instr) (node : Instr) : Option Instr :=
  (list.find? fun entry => entry.node = node).bind (Probed.ahead first)

theorem aheadOf_eq (probes : Probes platform onExitHook hookArg nodes enter exits) (first : Option Instr)
    (member : entry ∈ entries enter exits) : aheadOf (entries enter exits) first entry.node = entry.ahead first := by
  rw [aheadOf, probes.find member, Option.bind_some]

theorem of_erase {list : List Probed} {node x : Instr} (shown : erase list node = some x) :
    ∃ entry ∈ list, entry.node = node ∧ entry.shown = some x := by
  obtain ⟨entry, found, holds⟩ := Option.bind_eq_some_iff.mp shown
  exact ⟨entry, List.mem_of_find?_eq_some found, by simpa using List.find?_some found, holds⟩

theorem of_aheadOf {list : List Probed} {first : Option Instr} (ahead : aheadOf list first node = some x) :
    ∃ entry ∈ list, entry.node = node ∧ entry.ahead first = some x := by
  obtain ⟨entry, found, holds⟩ := Option.bind_eq_some_iff.mp ahead
  exact ⟨entry, List.mem_of_find?_eq_some found, by simpa using List.find?_some found, holds⟩

/-- An entry that shows an instruction with successors is that instruction. -/
theorem shown_original (probes : Probes platform onExitHook hookArg nodes enter exits)
    (member : entry ∈ entries enter exits)
    (shown : entry.shown = some x) :
    entry = ⟨x, .original⟩ ∨ entry.node.opcode = CEE_RET ∧ x.opcode = CEE_RET := by
  have sound := probes.sound entry member
  obtain ⟨node, role⟩ := entry
  cases role with
  | original =>
    cases shown
    exact .inl rfl
  | returns ret =>
    cases shown
    exact .inr ⟨sound.1, sound.2.2⟩
  | _ => simp [Probed.shown] at shown

theorem head_ahead (probes : Probes platform onExitHook hookArg nodes enter exits) :
    ∀ entry ∈ (entries enter exits).head?, entry.ahead nodes.head? = nodes.head? := by
  intro entry member
  have head := probes.expanded.head nodes.head?
  cases enter with
  | nil =>
    have start : exits.head? = some entry := member
    rwa [start, Option.bind_some] at head
  | cons node rest =>
    obtain rfl : _ = entry := by simpa [entries] using member
    rfl

theorem head_exists (probes : Probes platform onExitHook hookArg nodes enter exits)
    (start : nodes.head? = some x) : ∃ entry ∈ entries enter exits, (entries enter exits).head? = some entry := by
  have head := probes.expanded.head nodes.head?
  cases list : entries enter exits with
  | nil =>
    obtain ⟨-, rfl⟩ := List.append_eq_nil_iff.mp list
    rw [start] at head
    cases head
  | cons entry rest => exact ⟨entry, List.mem_cons_self .., rfl⟩

private theorem behind_hidden (probes : Probes platform onExitHook hookArg nodes enter exits)
    (split : entries enter exits = before ++ entry :: after) (hidden : entry.shown = none)
    (ahead : entry.ahead nodes.head? = some x) : ∃ next rest, after = next :: rest := by
  cases after with
  | cons next rest => exact ⟨next, rest, rfl⟩
  | nil =>
    have head := probes.expanded.head nodes.head?
    cases exits using List.reverseRecOn with
    | nil =>
      have member : entry ∈ entries enter [] := by simp [split]
      obtain ⟨node, -, rfl⟩ : ∃ node ∈ enter, ⟨node, .enterProbe⟩ = entry := by simpa [entries] using member
      have nothing : nodes.head? = some x := ahead
      rw [nothing] at head
      cases head
    | append_singleton front last =>
      rw [entries, ← List.append_assoc] at split
      obtain rfl := List.singleton_inj.mp (List.append_inj' split rfl).2
      exact absurd hidden (probes.expanded.last_shown last (by simp))

/-- The probes erased. -/
def erasure (probes : Probes platform onExitHook hookArg nodes enter exits) :
    Erasure (flowGraph platform nodes) (flowGraph platform ((entries enter exits).map Probed.node)) where
  shown := erase (entries enter exits)
  ahead := aheadOf (entries enter exits) nodes.head?
  delay node := (behind ((entries enter exits).map Probed.node) node).length
  shown_ahead := by
    intro node x shown
    obtain ⟨⟨_, role⟩, member, rfl, holds⟩ := of_erase shown
    rw [probes.aheadOf_eq _ member]
    cases role <;> simp_all [Probed.shown, Probed.ahead]
  start := by
    intro node x start ahead
    obtain ⟨entry, member, rfl, shows⟩ := of_aheadOf ahead
    have head : ((entries enter exits).map Probed.node).head? = some entry.node := start
    rw [List.head?_map] at head
    obtain ⟨other, first, same⟩ := Option.map_eq_some_iff.mp head
    have inside : other ∈ entries enter exits := List.mem_of_mem_head? first
    obtain rfl := probes.entry_unique inside member (by rw [same])
    exact (probes.head_ahead other first).symm.trans shows
  hidden := by
    intro node other hidden step
    obtain ⟨entry, member, rfl⟩ := List.mem_map.mp step.1
    rw [probes.erase_eq member] at hidden
    obtain ⟨before, after, split⟩ := List.append_of_mem member
    obtain ⟨next, rest, rfl, rfl⟩ := (probes.step_hidden split hidden).mp step
    have joined := probes.joined
    rw [split] at joined
    have nextMember : next ∈ entries enter exits := by simp [split]
    rw [probes.aheadOf_eq _ member, probes.aheadOf_eq _ nextMember]
    exact ((List.isChain_append_cons_cons.mp joined).2.1 hidden).1
  step := by
    intro node x other shown step
    obtain ⟨entry, member, rfl, holds⟩ := of_erase shown
    rcases probes.shown_original member holds with rfl | ⟨ret, -⟩
    · have listed := probes.original_mem member
      obtain ⟨-, falls | ⟨inside, jump⟩⟩ := step_iff.mp step
      · have original := probes.falls_original member nodes.head?
        cases next : fallThrough platform nodes x with
        | none =>
          rw [next] at original
          rw [original] at falls
          cases falls
        | some y =>
          rw [next] at original
          obtain ⟨entry, entryMember, there, ahead, -⟩ := original
          obtain rfl := Option.some.inj (there.symm.trans falls)
          exact ⟨y, (probes.aheadOf_eq _ entryMember).trans ahead, step_iff.mpr ⟨listed, .inl next⟩⟩
      · obtain ⟨target, targetMember, rfl⟩ := List.mem_map.mp inside
        rw [probes.jumps_original member] at jump
        obtain ⟨next, nextMember, same, ahead⟩ := probes.jump_target listed jump targetMember rfl
        refine ⟨next, (probes.aheadOf_eq _ targetMember).trans ahead, step_iff.mpr ⟨listed, .inr ⟨nextMember, ?_⟩⟩⟩
        rwa [same]
    · exact absurd step (no_step_ret ret)
  begins := by
    intro x start
    obtain ⟨entry, member, head⟩ := probes.head_exists start
    refine ⟨entry.node, ?_, ?_⟩
    · rw [flowGraph, List.head?_map, head]
      rfl
    · rw [probes.aheadOf_eq _ member, probes.head_ahead entry head]
      exact start
  goes := by
    intro node x hidden ahead
    obtain ⟨entry, member, rfl, shows⟩ := of_aheadOf ahead
    rw [probes.erase_eq member] at hidden
    obtain ⟨before, after, split⟩ := List.append_of_mem member
    obtain ⟨next, rest, rfl⟩ := probes.behind_hidden split hidden shows
    refine ⟨next.node, (probes.step_hidden split hidden).mpr ⟨next, rest, rfl, rfl⟩, ?_⟩
    have nodup := probes.nodes_nodup
    rw [split, List.map_append, List.map_cons, List.map_cons] at nodup
    have here := behind_cut nodup
    rw [List.append_cons] at nodup
    have there := behind_cut nodup
    rw [← List.append_cons] at there
    rw [split, List.map_append, List.map_cons, List.map_cons, here, there]
    exact Nat.lt_succ_self _
  lifts := by
    intro node x y shown step
    obtain ⟨entry, member, rfl, holds⟩ := of_erase shown
    rcases probes.shown_original member holds with rfl | ⟨-, ret⟩
    · have there : x ∈ (entries enter exits).map Probed.node := List.mem_map_of_mem member
      obtain ⟨listed, falls | ⟨inside, jump⟩⟩ := step_iff.mp step
      · have original := probes.falls_original member nodes.head?
        rw [falls] at original
        obtain ⟨entry, entryMember, next, ahead, -⟩ := original
        exact ⟨entry.node, step_iff.mpr ⟨there, .inl next⟩, (probes.aheadOf_eq _ entryMember).trans ahead⟩
      · obtain ⟨entry, entryMember, same, ahead, -⟩ := probes.entry_of_target inside
        refine ⟨entry.node, step_iff.mpr ⟨there, .inr ⟨List.mem_map_of_mem entryMember, ?_⟩⟩,
          (probes.aheadOf_eq _ entryMember).trans ahead⟩
        rw [probes.jumps_original member, same]
        exact jump
    · exact absurd step (no_step_ret ret)

end Probes

end ClrProfiling
