import ClrProfiling.IL.Export
import ClrProfiling.IL.Grammar
import ClrProfiling.IL.Listing

/-! Where the nodes of a list stand in its encoding, and the bytes they are encoded with. -/

namespace ClrProfiling

open Word

section Layout

variable (platform : Platform)

/-- The bytes of an opcode; internal opcodes have none. -/
def headBytes (opcode : Nat) : List UInt8 :=
  if opcode < platform.CEE_COUNT then
    (if opcode ≥ 0x100 then [UInt8.ofNat CEE_PREFIX1] else []) ++ [UInt8.ofNat (opcode % 256)]
  else []

/-- The number of bytes of a node. -/
def nodeSize (opcode : Nat) : Nat :=
  (headBytes platform opcode).length + operandWidth platform opcode +
    if platform.s_OpCodeFlags opcode = 0x20 then 4 else 0

def totalSize (nodes : List Instr) : Nat := (nodes.map fun node => nodeSize platform node.opcode).sum

/-- The offset of a node, or of the end for any other address. -/
def startOf : List Instr → Ptr → Nat
  | [], _ => 0
  | node :: rest, p => if node.ptr = p then 0 else nodeSize platform node.opcode + startOf rest p

/-- The operand bytes the first pass writes. -/
def valueBytes (node : Instr) : List UInt8 :=
  match platform.s_OpCodeFlags node.opcode with
  | 1 => LittleEndian.encode 1 node.operand
  | 2 => LittleEndian.encode 2 node.operand
  | 4 => LittleEndian.encode 4 node.operand
  | 8 => LittleEndian.encode 8 node.operand
  | 0x20 => LittleEndian.encode 4 node.operand
  | _ => []

/-- What the first pass writes for a node. -/
def fixedBytes (node : Instr) : List UInt8 := headBytes platform node.opcode ++ valueBytes platform node

/-- What the second pass writes for a node at `offset`. -/
def slotBytes (starts : Ptr → Nat) (switchBase offset : Nat) (node : Instr) : List UInt8 :=
  if node.opcode = platform.CEE_SWITCH_ARG then
    LittleEndian.encode 4 (sub32 (starts node.operand) switchBase)
  else
    match platform.s_OpCodeFlags node.opcode with
    | 0x11 => LittleEndian.encode 1 (sub32 (starts node.operand) (offset + nodeSize platform node.opcode))
    | 0x14 => LittleEndian.encode 4 (sub32 (starts node.operand) (offset + nodeSize platform node.opcode))
    | _ => []

/-- The base of the displacements behind a node at `offset`. -/
def baseBehind (switchBase offset : Nat) (node : Instr) : Nat :=
  if node.opcode = CEE_SWITCH then wrap32 (offset + 1 + 4 * (node.operand % 2 ^ 32 + 1)) else switchBase

/-- The encoding of a list of nodes from `offset` on. -/
def encodeFrom (starts : Ptr → Nat) : (switchBase offset : Nat) → List Instr → List UInt8
  | _, _, [] => []
  | switchBase, offset, node :: rest =>
    (fixedBytes platform node ++ slotBytes platform starts switchBase offset node) ++
      encodeFrom starts (baseBehind switchBase offset node) (offset + nodeSize platform node.opcode) rest

end Layout

section Sizes

variable {platform : Platform}

theorem length_headBytes_le (platform : Platform) (opcode : Nat) : (headBytes platform opcode).length ≤ 2 := by
  unfold headBytes
  split
  · split <;> simp
  · simp

theorem nodeSize_le (platform : Platform) (opcode : Nat) : nodeSize platform opcode ≤ 10 := by
  have head := length_headBytes_le platform opcode
  have flags := platform.flags_cases opcode
  simp only [List.mem_cons, List.not_mem_nil, or_false] at flags
  unfold nodeSize operandWidth
  rcases flags with flags | flags | flags | flags | flags | flags | flags | flags <;>
    simp only [flags, OPCODEFLAGS_SizeMask] <;> simp <;> omega

theorem headBytes_switchArg : headBytes platform platform.CEE_SWITCH_ARG = [] :=
  if_neg platform.switchArg_not_lt

/-- An opcode with a branch target other than the internal one takes one byte. -/
theorem length_headBytes_branch (branch : platform.s_OpCodeFlags opcode &&& OPCODEFLAGS_BranchTarget ≠ 0)
    (external : opcode ≠ platform.CEE_SWITCH_ARG) : (headBytes platform opcode).length = 1 := by
  by_cases below : opcode < platform.CEE_COUNT
  · have flags := platform.flags_cases opcode
    have small : opcode < 0x100 := by
      have short := platform.flags_short below
      have long := platform.flags_long below
      simp only [List.mem_cons, List.not_mem_nil, or_false] at flags
      simp only [CEE_BR_S, CEE_BLT_UN_S, CEE_LEAVE_S, CEE_BR, CEE_BLT_UN, CEE_LEAVE] at short long
      rcases flags with flags | flags | flags | flags | flags | flags | flags | flags <;>
        simp [flags, OPCODEFLAGS_BranchTarget] at branch short long <;> omega
    rw [headBytes, if_pos below, if_neg (by omega)]
    rfl
  · rw [OpcodeDef.s_OpCodeFlags, if_neg below, if_neg external] at branch
    exact absurd rfl branch

/-- The part of a node that is left to the second pass. -/
def slotWidth (platform : Platform) (node : Instr) : Nat :=
  if platform.s_OpCodeFlags node.opcode &&& OPCODEFLAGS_BranchTarget ≠ 0 then operandWidth platform node.opcode
  else 0

theorem length_slotBytes (starts : Ptr → Nat) (switchBase offset : Nat) (node : Instr) :
    (slotBytes platform starts switchBase offset node).length = slotWidth platform node := by
  unfold slotBytes slotWidth operandWidth
  split
  · rename_i internal
    rw [internal, platform.flags_switchArg]
    simp [OPCODEFLAGS_BranchTarget, OPCODEFLAGS_SizeMask]
  · have flags := platform.flags_cases node.opcode
    simp only [List.mem_cons, List.not_mem_nil, or_false] at flags
    rcases flags with flags | flags | flags | flags | flags | flags | flags | flags <;>
      simp [flags, OPCODEFLAGS_BranchTarget, OPCODEFLAGS_SizeMask]

theorem length_fixedBytes (platform : Platform) (node : Instr) :
    (fixedBytes platform node).length + slotWidth platform node = nodeSize platform node.opcode := by
  unfold fixedBytes valueBytes slotWidth nodeSize operandWidth
  have flags := platform.flags_cases node.opcode
  simp only [List.mem_cons, List.not_mem_nil, or_false] at flags
  rcases flags with flags | flags | flags | flags | flags | flags | flags | flags <;>
    simp [flags, OPCODEFLAGS_BranchTarget, OPCODEFLAGS_SizeMask]

@[simp] theorem totalSize_nil : totalSize platform [] = 0 := rfl

@[simp] theorem totalSize_cons (node : Instr) (rest : List Instr) :
    totalSize platform (node :: rest) = nodeSize platform node.opcode + totalSize platform rest := by
  simp [totalSize]

theorem length_encodeFrom (starts : Ptr → Nat) (switchBase offset : Nat) (nodes : List Instr) :
    (encodeFrom platform starts switchBase offset nodes).length = totalSize platform nodes := by
  induction nodes generalizing switchBase offset with
  | nil => rfl
  | cons node rest ih =>
    rw [encodeFrom, List.length_append, List.length_append, length_slotBytes, length_fixedBytes, ih, totalSize_cons]

theorem totalSize_append (before after : List Instr) :
    totalSize platform (before ++ after) = totalSize platform before + totalSize platform after := by
  simp [totalSize]

theorem totalSize_le (nodes : List Instr) : totalSize platform nodes ≤ 10 * nodes.length := by
  induction nodes with
  | nil => simp [totalSize]
  | cons node rest ih =>
    have bound := nodeSize_le platform node.opcode
    rw [totalSize_cons, List.length_cons]
    omega

theorem startOf_head (node : Instr) (rest : List Instr) : startOf platform (node :: rest) node.ptr = 0 :=
  if_pos rfl

theorem startOf_append (platform : Platform) {before : List Instr} (fresh : p ∉ before.map Instr.ptr)
    (after : List Instr) :
    startOf platform (before ++ after) p = totalSize platform before + startOf platform after p := by
  induction before with
  | nil => simp [totalSize]
  | cons node rest ih =>
    obtain ⟨apart, fresh⟩ : p ≠ node.ptr ∧ p ∉ rest.map Instr.ptr := by simpa [not_or] using fresh
    rw [List.cons_append, startOf, if_neg (Ne.symm apart), ih fresh, totalSize_cons, Nat.add_assoc]

theorem startOf_absent {nodes : List Instr} (fresh : p ∉ nodes.map Instr.ptr) :
    startOf platform nodes p = totalSize platform nodes := by
  have whole := startOf_append platform fresh []
  rwa [List.append_nil, startOf, Nat.add_zero] at whole

theorem startOf_le (nodes : List Instr) (p : Ptr) : startOf platform nodes p ≤ totalSize platform nodes := by
  induction nodes with
  | nil => simp [startOf]
  | cons node rest ih =>
    rw [startOf, totalSize_cons]
    split <;> omega

end Sizes

/-- What stands behind a cut of a list starts where the part in front of the cut ends. -/
theorem startOf_cut (platform : Platform) {before after : List Instr}
    (nodup : (hub :: (before ++ after).map Instr.ptr).Nodup) :
    startOf platform (before ++ after) (LinkedRing.rightOf hub (after.map Instr.ptr)) = totalSize platform before := by
  obtain ⟨hubFresh, nodup⟩ := List.nodup_cons.mp nodup
  cases after with
  | nil =>
    rw [List.append_nil] at hubFresh ⊢
    exact startOf_absent hubFresh
  | cons node rest =>
    rw [List.map_append, List.map_cons, List.nodup_middle, List.nodup_cons] at nodup
    rw [List.map_cons, LinkedRing.rightOf_cons,
      startOf_append platform fun member => nodup.1 (List.mem_append_left _ member), startOf_head, Nat.add_zero]

section Places

variable (platform : Platform)

/-- A property of every node with its place, the first node standing at `offset`. -/
def EveryAt (property : Nat → Instr → Prop) : (offset : Nat) → List Instr → Prop
  | _, [] => True
  | offset, node :: rest =>
    property offset node ∧ EveryAt property (offset + nodeSize platform node.opcode) rest

variable {platform} {property : Nat → Instr → Prop}

theorem everyAt_iff {nodes : List Instr} : EveryAt platform property offset nodes ↔
    ∀ before node after, nodes = before ++ node :: after → property (offset + totalSize platform before) node := by
  induction nodes generalizing offset with
  | nil => simp [EveryAt]
  | cons first rest ih =>
    rw [EveryAt, ih]
    constructor
    · rintro ⟨here, later⟩ before node after split
      cases before with
      | nil =>
        obtain ⟨rfl, rfl⟩ := List.cons_eq_cons.mp split
        exact here
      | cons other before =>
        obtain ⟨rfl, rfl⟩ := List.cons_eq_cons.mp split
        rw [totalSize_cons, ← Nat.add_assoc]
        exact later before node after rfl
    · intro all
      refine ⟨all [] first rest rfl, fun before node after split => ?_⟩
      have there := all (first :: before) node after (by rw [split]; rfl)
      rwa [totalSize_cons, ← Nat.add_assoc] at there

theorem everyAt_append {before after : List Instr} : EveryAt platform property offset (before ++ after) ↔
    EveryAt platform property offset before ∧
      EveryAt platform property (offset + totalSize platform before) after := by
  induction before generalizing offset with
  | nil => simp [EveryAt]
  | cons node rest ih => simp [EveryAt, ih, and_assoc, Nat.add_assoc]

theorem EveryAt.imp {other : Nat → Instr → Prop} {nodes : List Instr} (every : EveryAt platform property offset nodes)
    (imply : ∀ place node, node ∈ nodes → property place node → other place node) :
    EveryAt platform other offset nodes := by
  induction nodes generalizing offset with
  | nil => trivial
  | cons node rest ih =>
    exact ⟨imply _ _ (List.mem_cons_self ..) every.1,
      ih every.2 fun place node member => imply place node (List.mem_cons_of_mem _ member)⟩

end Places

end ClrProfiling
