import ClrProfiling.IL.Layout

/-! The first pass of Export: every node gets its offset, and its bytes except the
displacements are written there. -/

namespace ClrProfiling

open LinkedRing Word

/-- A write of some bytes, or no write at all. -/
def put (buffer : Buffer) (offset : Nat) (bytes : List UInt8) : Except Failure Buffer :=
  if bytes = [] then .ok buffer else store buffer offset bytes

/-- What a successful write does. -/
structure Written (buffer : Buffer) (offset : Nat) (bytes : List UInt8) (after : Buffer) : Prop where
  size : after.size = buffer.size
  fits : bytes ≠ [] → offset + bytes.length ≤ buffer.size
  content : after.read offset bytes.length = bytes
  elsewhere : ∀ i, i < offset ∨ offset + bytes.length ≤ i → after.byte i = buffer.byte i

theorem store_eq_ok {buffer : Buffer} (run : store buffer offset bytes = .ok after) :
    Written buffer offset bytes after := by
  unfold store at run
  split at run
  · rename_i written
    cases run
    exact ⟨Buffer.write_size written, fun _ => Buffer.write_bound written, Buffer.write_read written,
      fun i outside => Buffer.write_elsewhere written outside⟩
  · cases run

theorem put_eq_ok {buffer : Buffer} (run : put buffer offset bytes = .ok after) :
    Written buffer offset bytes after := by
  unfold put at run
  split at run
  · rename_i empty
    cases run
    subst empty
    exact ⟨rfl, fun nonempty => absurd rfl nonempty, rfl, fun _ _ => rfl⟩
  · exact store_eq_ok run

theorem store_of_le {buffer : Buffer} (fits : offset + bytes.length ≤ buffer.size) :
    ∃ after, store buffer offset bytes = .ok after := by
  obtain ⟨after, written⟩ := (Buffer.write_isSome_iff buffer offset bytes).mpr fits
  exact ⟨after, by rw [store, written]⟩

theorem put_of_le {buffer : Buffer} (fits : offset + bytes.length ≤ buffer.size) :
    ∃ after, put buffer offset bytes = .ok after := by
  unfold put
  split
  · exact ⟨buffer, rfl⟩
  · exact store_of_le fits

theorem store_append (buffer : Buffer) (offset : Nat) (first second : List UInt8) :
    store buffer offset (first ++ second) =
      (store buffer offset first >>= fun after => store after (offset + first.length) second) := by
  unfold store
  rw [Buffer.write_append]
  cases buffer.write offset first <;> rfl

theorem put_append (buffer : Buffer) (offset : Nat) (first second : List UInt8) :
    put buffer offset (first ++ second) =
      (put buffer offset first >>= fun after => put after (offset + first.length) second) := by
  unfold put
  by_cases left : first = []
  · subst left
    simp
  · by_cases right : second = []
    · subst right
      rw [List.append_nil, if_neg left]
      cases store buffer offset first <;> rfl
    · rw [if_neg left, if_neg (by simp [left]), store_append]
      simp only [if_neg right]

theorem Written.end_lt {buffer : Buffer} (written : Written buffer offset bytes after) (small : offset < 2 ^ 32)
    (narrow : buffer.size < 2 ^ 32) : offset + bytes.length < 2 ^ 32 := by
  by_cases empty : bytes = []
  · simpa [empty] using small
  · exact Nat.lt_of_le_of_lt (written.fits empty) narrow

namespace ILRewriter

variable {platform : Platform}

theorem EmitOpcode_eq {buffer : Buffer} (opcode : Nat) (small : offset < 2 ^ 32) (narrow : buffer.size < 2 ^ 32) :
    EmitOpcode platform opcode buffer offset =
      (put buffer offset (headBytes platform opcode)).map
        fun after => (after, wrap32 (offset + (headBytes platform opcode).length)) := by
  unfold EmitOpcode headBytes
  by_cases below : opcode < platform.CEE_COUNT
  · rw [if_pos below, if_pos below]
    by_cases twoBytes : opcode ≥ 0x100
    · rw [if_pos twoBytes, if_pos twoBytes, put, if_neg (by simp), store_append]
      cases first : store buffer offset [UInt8.ofNat CEE_PREFIX1] with
      | error failure => rfl
      | ok middle =>
        have inside := (store_eq_ok first).end_lt small narrow
        have exact : wrap32 (offset + 1) = offset + 1 := wrap32_of_lt inside
        simp only [Outcome.ok_bind, Outcome.pure_eq, exact, List.length_singleton]
        cases store middle (offset + 1) [UInt8.ofNat (opcode % 256)] <;> rfl
    · rw [if_neg twoBytes, if_neg twoBytes, List.nil_append, put, if_neg (by simp)]
      simp only [Outcome.ok_bind, Outcome.pure_eq]
      cases store buffer offset [UInt8.ofNat (opcode % 256)] <;> rfl
  · rw [if_neg below, if_neg below]
    simp [put, Outcome.pure_eq, Except.map, wrap32_of_lt small]

theorem EmitOperand_eq {s : ILRewriter} {buffer : Buffer} {node : Instr}
    (operand : s.m_operand node.ptr = node.operand) (offset : Nat) (fBranch : Bool) :
    s.EmitOperand (platform.s_OpCodeFlags node.opcode) node.ptr buffer offset fBranch =
      (put buffer offset (valueBytes platform node)).map fun after =>
        (after, if platform.s_OpCodeFlags node.opcode = 0x20 then wrap32 (offset + 4) else offset,
          fBranch || decide (node.isBranch platform)) := by
  have arg8 : LittleEndian.encode 1 (s.m_Arg8 node.ptr) = LittleEndian.encode 1 node.operand := by
    rw [m_Arg8, operand]
    exact LittleEndian.encode_mod 1 _
  have arg16 : LittleEndian.encode 2 (s.m_Arg16 node.ptr) = LittleEndian.encode 2 node.operand := by
    rw [m_Arg16, operand]
    exact LittleEndian.encode_mod 2 _
  have arg32 : LittleEndian.encode 4 (s.m_Arg32 node.ptr) = LittleEndian.encode 4 node.operand := by
    rw [m_Arg32, operand]
    exact LittleEndian.encode_mod 4 _
  have arg64 : LittleEndian.encode 8 (s.m_Arg64 node.ptr) = LittleEndian.encode 8 node.operand := by
    rw [m_Arg64, operand]
    exact LittleEndian.encode_mod 8 _
  have nonempty (width value : Nat) : LittleEndian.encode (width + 1) value ≠ [] := by simp [LittleEndian.encode]
  have flags := platform.flags_cases node.opcode
  simp only [List.mem_cons, List.not_mem_nil, or_false] at flags
  unfold valueBytes put
  rcases flags with flags | flags | flags | flags | flags | flags | flags | flags
  all_goals
    simp [flags, Instr.isBranch, EmitOperand, OPCODEFLAGS_BranchTarget, arg8, arg16, arg32, arg64, nonempty,
      Outcome.pure_eq, Except.map, Bind.bind, Except.bind]

/-- One turn of the first pass is one write and a step of the offset. -/
theorem EmitInstr_eq {loop : Emission} {node : Instr} (opcode : loop.rewriter.m_opcode node.ptr = node.opcode)
    (operand : loop.rewriter.m_operand node.ptr = node.operand) (small : loop.offset < 2 ^ 32)
    (narrow : loop.buffer.size < 2 ^ 32) :
    EmitInstr platform loop node.ptr =
      (put loop.buffer loop.offset (fixedBytes platform node)).map fun buffer =>
        { rewriter := loop.rewriter.setOffset node.ptr loop.offset
          buffer
          offset := wrap32 (loop.offset + nodeSize platform node.opcode)
          fBranch := loop.fBranch || decide (node.isBranch platform) } := by
  unfold EmitInstr
  have opcode' : (loop.rewriter.setOffset node.ptr loop.offset).m_opcode node.ptr = node.opcode := opcode
  have operand' : (loop.rewriter.setOffset node.ptr loop.offset).m_operand node.ptr = node.operand := operand
  rw [fixedBytes, put_append]
  simp only [opcode', EmitOpcode_eq node.opcode small narrow]
  cases head : put loop.buffer loop.offset (headBytes platform node.opcode) with
  | error failure => rfl
  | ok buffer =>
    have inside := (put_eq_ok head).end_lt small narrow
    simp only [Except.map, Outcome.ok_bind, wrap32_of_lt inside, EmitOperand_eq operand']
    cases put buffer (loop.offset + (headBytes platform node.opcode).length) (valueBytes platform node) with
    | error failure => rfl
    | ok buffer =>
      simp only [Outcome.ok_bind, Outcome.pure_eq, nodeSize, operandWidth]
      congr 2
      split
      · rw [wrap32_add_left]
        congr 1
        omega
      · congr 1
        omega

/-- The nodes of a list have the opcodes and operands the rewriter says. -/
def Fields (s : ILRewriter) (nodes : List Instr) : Prop :=
  ∀ node ∈ nodes, s.m_opcode node.ptr = node.opcode ∧ s.m_operand node.ptr = node.operand

theorem Holds.fields {s : ILRewriter} (holds : s.Holds nodes) : s.Fields nodes :=
  fun node member => ⟨holds.opcode node member, holds.operand node member⟩

/-- What the first pass has done when it is through with a list of nodes from `start` on. -/
structure Emitted (platform : Platform) (start : Nat) (nodes : List Instr) (loop loop' : Emission) : Prop where
  offset : loop'.offset = wrap32 (start + totalSize platform nodes)
  size : loop'.buffer.size = loop.buffer.size
  branch : loop'.fBranch = (loop.fBranch || nodes.any fun node => node.isBranch platform)
  rewriter : loop'.rewriter = { loop.rewriter with m_offset := loop'.rewriter.m_offset }
  offsets : ∀ p, loop'.rewriter.m_offset p =
    if p ∈ nodes.map Instr.ptr then wrap32 (start + startOf platform nodes p) else loop.rewriter.m_offset p
  fits : EveryAt platform (fun place node => fixedBytes platform node ≠ [] →
    wrap32 place + (fixedBytes platform node).length ≤ loop.buffer.size) start nodes

private theorem EmitInstr_eq_ok {loop : Emission} {node : Instr} (fields : loop.rewriter.Fields (node :: rest))
    (place : loop.offset = wrap32 start) (narrow : loop.buffer.size < 2 ^ 32)
    (run : EmitInstr platform loop node.ptr = .ok loop') :
    ∃ buffer, Written loop.buffer (wrap32 start) (fixedBytes platform node) buffer ∧
      loop' =
        { rewriter := loop.rewriter.setOffset node.ptr (wrap32 start)
          buffer
          offset := wrap32 (start + nodeSize platform node.opcode)
          fBranch := loop.fBranch || decide (node.isBranch platform) } := by
  obtain ⟨opcode, operand⟩ := fields node (by simp)
  rw [EmitInstr_eq opcode operand (by rw [place]; exact wrap32_lt _) narrow, place] at run
  cases written : put loop.buffer (wrap32 start) (fixedBytes platform node) with
  | error failure => simp [written, Except.map] at run
  | ok buffer =>
    rw [written] at run
    cases run
    exact ⟨buffer, put_eq_ok written, by rw [wrap32_add_left]⟩

/-- The run of the first pass over a list, offsets modulo 2^32. -/
theorem emit_all {nodes : List Instr} {loop : Emission}
    (run : (nodes.map Instr.ptr).foldlM (EmitInstr platform) loop = .ok loop') (fields : loop.rewriter.Fields nodes)
    (nodup : (nodes.map Instr.ptr).Nodup) (place : loop.offset = wrap32 start) (narrow : loop.buffer.size < 2 ^ 32) :
    Emitted platform start nodes loop loop' := by
  induction nodes generalizing loop start with
  | nil =>
    cases run
    exact ⟨place, rfl, by simp, rfl, by simp, trivial⟩
  | cons node rest ih =>
    rw [List.map_cons, List.foldlM_cons] at run
    obtain ⟨middle, turn, later⟩ := Outcome.bind_eq_ok_iff.mp run
    obtain ⟨buffer, written, rfl⟩ := EmitInstr_eq_ok fields place narrow turn
    obtain ⟨fresh, nodup⟩ := List.nodup_cons.mp nodup
    have emitted := ih later (fun other member => fields other (List.mem_cons_of_mem _ member)) nodup rfl
      (by rw [written.size]; exact narrow)
    refine ⟨?_, emitted.size.trans written.size, ?_, ?_, ?_, written.fits, ?_⟩
    · rw [emitted.offset, totalSize_cons, Nat.add_assoc]
    · simpa [Bool.or_assoc] using emitted.branch
    · exact emitted.rewriter
    · intro p
      rw [emitted.offsets, startOf, List.map_cons]
      by_cases inRest : p ∈ rest.map Instr.ptr
      · have apart : node.ptr ≠ p := fun same => fresh (same ▸ inRest)
        rw [if_pos inRest, if_pos (List.mem_cons_of_mem _ inRest), if_neg apart, Nat.add_assoc]
      · rw [if_neg inRest]
        by_cases here : p = node.ptr
        · subst here
          simp [setOffset]
        · have outside : p ∉ node.ptr :: rest.map Instr.ptr := by simp [here, inRest]
          rw [if_neg outside]
          exact Function.update_of_ne here _ _
    · have fits := emitted.fits
      rwa [written.size] at fits

/-- The bytes of the first pass, where the whole list has room. -/
theorem emit_content {nodes : List Instr} {loop : Emission}
    (run : (nodes.map Instr.ptr).foldlM (EmitInstr platform) loop = .ok loop')
    (fields : loop.rewriter.Fields nodes) (place : loop.offset = start) (narrow : loop.buffer.size < 2 ^ 32)
    (room : start + totalSize platform nodes ≤ loop.buffer.size) :
    EveryAt platform (fun place node =>
        loop'.buffer.read place (fixedBytes platform node).length = fixedBytes platform node) start nodes ∧
      ∀ i < start, loop'.buffer.byte i = loop.buffer.byte i := by
  induction nodes generalizing loop start with
  | nil =>
    cases run
    exact ⟨trivial, fun _ _ => rfl⟩
  | cons node rest ih =>
    rw [totalSize_cons] at room
    rw [List.map_cons, List.foldlM_cons] at run
    obtain ⟨middle, turn, later⟩ := Outcome.bind_eq_ok_iff.mp run
    have inRange : wrap32 start = start := wrap32_of_lt (by omega)
    obtain ⟨buffer, written, rfl⟩ := EmitInstr_eq_ok fields (place.trans inRange.symm) narrow turn
    rw [inRange] at written
    have widths := length_fixedBytes platform node
    obtain ⟨contents, earlier⟩ := ih later (fun other member => fields other (List.mem_cons_of_mem _ member))
      (wrap32_of_lt (by omega)) (by rw [written.size]; exact narrow) (by rw [written.size]; omega)
    refine ⟨⟨?_, contents⟩, fun i before => ?_⟩
    · have kept : loop'.buffer.read start (fixedBytes platform node).length =
          buffer.read start (fixedBytes platform node).length :=
        Buffer.read_congr fun i _ upper => earlier i (by omega)
      exact kept.trans written.content
    · exact (earlier i (by omega)).trans (written.elsewhere i (.inl before))

/-- The first pass goes through where the whole list has room. -/
theorem emit_succeeds {nodes : List Instr} {loop : Emission} (fields : loop.rewriter.Fields nodes)
    (place : loop.offset = start) (narrow : loop.buffer.size < 2 ^ 32)
    (room : start + totalSize platform nodes ≤ loop.buffer.size) :
    ∃ loop', (nodes.map Instr.ptr).foldlM (EmitInstr platform) loop = .ok loop' := by
  induction nodes generalizing loop start with
  | nil => exact ⟨loop, rfl⟩
  | cons node rest ih =>
    rw [totalSize_cons] at room
    have widths := length_fixedBytes platform node
    obtain ⟨opcode, operand⟩ := fields node (by simp)
    obtain ⟨buffer, written⟩ : ∃ buffer, put loop.buffer loop.offset (fixedBytes platform node) = .ok buffer :=
      put_of_le (by omega)
    have size := (put_eq_ok written).size
    have turn : EmitInstr platform loop node.ptr = _ := EmitInstr_eq opcode operand (by omega) narrow
    rw [written, Except.map] at turn
    rw [List.map_cons, List.foldlM_cons, turn, Outcome.ok_bind]
    refine ih (fun other member => fields other (List.mem_cons_of_mem _ member)) (wrap32_of_lt (by omega))
      (size.trans_lt narrow) (Nat.le_trans ?_ (Nat.le_of_eq size.symm))
    omega

/-- The first pass fails at the end of the buffer only. -/
theorem emit_refuses {nodes : List Instr} {loop : Emission} {failure : Failure}
    (run : (nodes.map Instr.ptr).foldlM (EmitInstr platform) loop = .error failure)
    (fields : loop.rewriter.Fields nodes) (small : loop.offset < 2 ^ 32) (narrow : loop.buffer.size < 2 ^ 32) :
    failure = .outOfBounds := by
  induction nodes generalizing loop with
  | nil => cases run
  | cons node rest ih =>
    obtain ⟨opcode, operand⟩ := fields node (by simp)
    rw [List.map_cons, List.foldlM_cons, EmitInstr_eq opcode operand small narrow] at run
    cases written : put loop.buffer loop.offset (fixedBytes platform node) with
    | error failed =>
      rw [written] at run
      cases run
      unfold put store at written
      split at written
      · cases written
      · split at written <;> cases written
        rfl
    | ok buffer =>
      rw [written] at run
      have size := (put_eq_ok written).size
      exact ih run (fun other member => fields other (List.mem_cons_of_mem _ member)) (wrap32_lt _)
        (size.trans_lt narrow)

end ILRewriter

end ClrProfiling
