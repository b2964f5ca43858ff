import ClrProfiling.IL.References

/-! Export right behind Import: the offsets of the nodes are those of the instructions,
and the bytes are the bytes that were read. -/

namespace ClrProfiling

open LinkedRing Word ILRewriter

section Layout

variable {platform : Platform}

/-- The first pass writes the opcode bytes the decode loop reads. -/
theorem headBytes_eq (importable : platform.Importable opcode) : headBytes platform opcode = opcodeBytes opcode := by
  obtain ⟨below, small, -, -⟩ := importable
  unfold headBytes opcodeBytes
  rw [if_pos below]
  by_cases twoBytes : opcode ≥ 0x100
  · rw [if_pos twoBytes, if_neg (by omega)]
    have low : opcode % 256 = opcode - 0x100 := by omega
    have bound : opcode - 0x100 < 256 := by omega
    simp [LittleEndian.encode, low, CEE_PREFIX1, Nat.mod_eq_of_lt bound]
  · rw [if_neg twoBytes, if_pos (by omega)]
    simp [LittleEndian.encode]

theorem nodeSize_plain (importable : platform.Importable opcode) (notSwitch : opcode ≠ CEE_SWITCH) :
    nodeSize platform opcode = (opcodeBytes opcode).length + operandWidth platform opcode := by
  have flags : platform.s_OpCodeFlags opcode ≠ 0x20 := fun isSwitch =>
    notSwitch ((platform.flags_switch importable.1).mp isSwitch)
  rw [nodeSize, headBytes_eq importable, if_neg flags, Nat.add_zero]

theorem nodeSize_switch : nodeSize platform CEE_SWITCH = 5 := by
  have importable : platform.Importable CEE_SWITCH := platform.importable_oneByte (by decide)
  rw [nodeSize, headBytes_eq importable, operandWidth, platform.flags_CEE_SWITCH]
  rfl

theorem nodeSize_switchArg : nodeSize platform platform.CEE_SWITCH_ARG = 4 := by
  rw [nodeSize, headBytes_switchArg, operandWidth, platform.flags_switchArg]
  rfl

theorem totalSize_arguments {nodes : List Instr} (internal : ∀ node ∈ nodes, node.opcode = platform.CEE_SWITCH_ARG) :
    totalSize platform nodes = 4 * nodes.length := by
  induction nodes with
  | nil => rfl
  | cons node rest ih =>
    obtain ⟨first, others⟩ := List.forall_mem_cons.mp internal
    rw [totalSize_cons, ih others, first, nodeSize_switchArg, List.length_cons]
    omega

theorem totalSize_rawNodes {instr : RawInstr} (valid : instr.Valid platform) (brk : Ptr) (offset : Nat) :
    totalSize platform (rawNodes platform brk offset instr) = instr.size platform := by
  cases instr with
  | plain opcode operand =>
    rw [rawNodes, totalSize_cons, totalSize_nil, Nat.add_zero, nodeSize_plain valid.1 valid.2.1, size_plain]
  | switch targets =>
    rw [rawNodes, totalSize_cons, totalSize_arguments fun _ => targetNodes_opcode, length_targetNodes, nodeSize_switch,
      size_switch]

theorem totalSize_loadedNodes {instrs : List RawInstr} (valid : ∀ instr ∈ instrs, instr.Valid platform)
    (brk : Ptr) (offset : Nat) :
    totalSize platform (loadedNodes platform brk offset instrs) = (listingBytes platform instrs).length := by
  induction instrs generalizing brk offset with
  | nil => rfl
  | cons instr rest ih =>
    obtain ⟨first, others⟩ := List.forall_mem_cons.mp valid
    rw [loadedNodes, totalSize_append, totalSize_rawNodes first, ih others, length_listingBytes_cons]

theorem totalSize_resolved (find : Nat → Ptr) (nodes : List Instr) :
    totalSize platform (nodes.map (resolved platform find)) = totalSize platform nodes := by
  simp [totalSize, Function.comp_def]

theorem totalSize_importedNodes {instrs : List RawInstr} (valid : ∀ instr ∈ instrs, instr.Valid platform) :
    totalSize platform (importedNodes platform instrs) = (listingBytes platform instrs).length := by
  rw [importedNodes, totalSize_resolved, totalSize_loadedNodes valid]

/-- The node found for a boundary stands at that boundary. -/
theorem startOf_startNode {instrs : List RawInstr} (valid : ∀ instr ∈ instrs, instr.Valid platform)
    (boundary : Boundary platform instrs position) :
    startOf platform (importedNodes platform instrs) (startNode platform instrs position) = position := by
  obtain ⟨before, after, rfl, rfl⟩ := boundary
  have ptrs := @importedNodes_ptrs platform (before ++ after)
  cases after with
  | nil =>
    rw [List.append_nil] at ptrs valid ⊢
    rw [startNode_end, startOf_absent, totalSize_importedNodes valid]
    rw [ptrs, List.mem_range'_1]
    exact fun inside => absurd inside.1 (by decide)
  | cons instr rest =>
    have early : ∀ instr ∈ before, instr.Valid platform := fun instr member =>
      valid instr (List.mem_append_left _ member)
    rw [startNode_start, importedNodes, loadedNodes_append, List.map_append, startOf_append]
    · rw [totalSize_resolved, totalSize_loadedNodes early]
      have head : startOf platform ((loadedNodes platform (m_IL + 1 + (before.map RawInstr.nodes).sum)
          (0 + (listingBytes platform before).length) (instr :: rest)).map
            (resolved platform (startNode platform (before ++ instr :: rest))))
          (m_IL + 1 + (before.map RawInstr.nodes).sum) = 0 := by
        cases instr <;> simp [loadedNodes, rawNodes, startOf]
      rw [head, Nat.add_zero]
    · have addresses := @loadedNodes_ptrs platform (m_IL + 1) 0 before
      have same : ((loadedNodes platform (m_IL + 1) 0 before).map
          (resolved platform (startNode platform (before ++ instr :: rest)))).map Instr.ptr =
          (loadedNodes platform (m_IL + 1) 0 before).map Instr.ptr := by
        simp [Function.comp_def]
      rw [same, addresses, List.mem_range'_1]
      omega

end Layout

section Encoding

variable {platform : Platform}

private theorem fixed_target (platform : Platform) (find : Nat → Ptr) (brk : Ptr) (position : Nat) :
    fixedBytes platform (resolved platform find ⟨brk, platform.CEE_SWITCH_ARG, position⟩) = [] :=
  fixedBytes_switchArg (resolved_opcode ..)

private theorem encode_targetNodes {starts : Ptr → Nat} {find : Nat → Ptr} {targets : List Nat}
    (found : ∀ target ∈ targets, starts (find (wrap32 (base + target))) = wrap32 (base + target))
    (small : ∀ target ∈ targets, target < 2 ^ 32) (brk : Ptr) (place : Nat) (rest : List Instr) :
    encodeFrom platform starts base place
        ((targetNodes platform base brk targets).map (resolved platform find) ++ rest) =
      targets.flatMap (LittleEndian.encode 4) ++ encodeFrom platform starts base (place + 4 * targets.length) rest := by
  induction targets generalizing brk place with
  | nil => rfl
  | cons target others ih =>
    obtain ⟨foundHere, found⟩ := List.forall_mem_cons.mp found
    obtain ⟨smallHere, small⟩ := List.forall_mem_cons.mp small
    have branch : (Instr.mk brk platform.CEE_SWITCH_ARG (wrap32 (base + target))).isBranch platform := .of_switchArg rfl
    have node : resolved platform find ⟨brk, platform.CEE_SWITCH_ARG, wrap32 (base + target)⟩ =
        ⟨brk, platform.CEE_SWITCH_ARG, find (wrap32 (base + target))⟩ := by
      rw [resolved, if_pos branch]
      congr 2
      exact Nat.mod_eq_of_lt (wrap32_lt _)
    have slot : slotBytes platform starts base place ⟨brk, platform.CEE_SWITCH_ARG, find (wrap32 (base + target))⟩ =
        LittleEndian.encode 4 target := by
      rw [slotBytes, if_pos rfl, foundHere, sub32_wrap32_add, wrap32_of_lt smallHere]
    have behind : baseBehind base place ⟨brk, platform.CEE_SWITCH_ARG, find (wrap32 (base + target))⟩ = base :=
      baseBehind_branch _ _ (by simpa [Instr.isBranch] using branch)
    have fixed := fixed_target platform find brk (wrap32 (base + target))
    rw [node] at fixed
    rw [targetNodes, List.map_cons, List.cons_append, encodeFrom, node, fixed, slot, behind, nodeSize_switchArg,
      ih found small, List.flatMap_cons, List.length_cons, List.append_assoc, List.append_assoc, List.nil_append]
    congr 3
    omega

/-- The displacement bytes of a branch whose target stands where the instruction says. -/
private theorem encode_plain {starts : Ptr → Nat} {find : Nat → Ptr} {opcode operand : Nat}
    (valid : (RawInstr.plain opcode operand).Valid platform)
    (found : ∀ target ∈ (RawInstr.plain opcode operand).targets platform offset, starts (find target) = target)
    (brk : Ptr) (base : Nat) :
    let node := resolved platform find ⟨brk, opcode, storedOperand platform offset opcode operand⟩
    fixedBytes platform node ++ slotBytes platform starts base offset node =
      (RawInstr.plain opcode operand).bytes platform := by
  obtain ⟨importable, notSwitch, small⟩ := valid
  have external := importable.ne_switchArg
  have size := nodeSize_plain importable notSwitch
  have flags := platform.flags_cases opcode
  simp only [List.mem_cons, List.not_mem_nil, or_false] at flags
  have bytes : (RawInstr.plain opcode operand).bytes platform =
      opcodeBytes opcode ++ LittleEndian.encode (operandWidth platform opcode) operand := rfl
  dsimp only
  rw [bytes, ← headBytes_eq importable]
  by_cases branch : (Instr.mk brk opcode (storedOperand platform offset opcode operand)).isBranch platform
  · have kinds := branch_flags branch
    have branchFlags : platform.s_OpCodeFlags opcode &&& OPCODEFLAGS_BranchTarget ≠ 0 := branch
    have target := found (storedOperand platform offset opcode operand) (by
      rw [RawInstr.targets, if_pos branchFlags]
      exact List.mem_singleton_self _)
    have inRange : storedOperand platform offset opcode operand < 2 ^ 32 := storedOperand_lt branchFlags ..
    rw [resolved, if_pos branch, fixedBytes, valueBytes_branch (by exact branch), List.append_nil,
      Nat.mod_eq_of_lt inRange,
      slotBytes, if_neg external, List.append_cancel_left_eq, target]
    dsimp only at kinds ⊢
    rcases kinds with short | long
    · have narrow : operand < 256 := by simpa [operandWidth, short, OPCODEFLAGS_SizeMask] using small
      have width : operandWidth platform opcode = 1 := by rw [operandWidth, short]; rfl
      have displacement : storedOperand platform offset opcode operand =
          wrap32 (offset + nodeSize platform opcode + signExtend8 operand) := by
        rw [storedOperand_short short, size, width, ← Nat.add_assoc]
      simp only [short, width, displacement]
      rw [sub32_wrap32_add, wrap32_of_lt (signExtend8_lt narrow), ← LittleEndian.encode_mod 1 (signExtend8 operand)]
      congr 1
      exact signExtend8_mod narrow
    · have width : operandWidth platform opcode = 4 := by rw [operandWidth, long]; rfl
      have bound : operand < 2 ^ 32 := by simpa [width] using small
      have displacement : storedOperand platform offset opcode operand =
          wrap32 (offset + nodeSize platform opcode + operand) := by
        rw [storedOperand_long long, size, width, ← Nat.add_assoc]
      simp only [long, width, displacement]
      rw [sub32_wrap32_add, wrap32_of_lt bound]
  · rw [resolved, if_neg branch]
    have noSlot : slotWidth platform ⟨brk, opcode, storedOperand platform offset opcode operand⟩ = 0 := if_neg branch
    rw [List.eq_nil_of_length_eq_zero ((length_slotBytes ..).trans noSlot), List.append_nil, fixedBytes,
      List.append_cancel_left_eq, valueBytes, storedOperand]
    dsimp only
    rcases flags with flags | flags | flags | flags | flags | flags | flags | flags
    case inr.inr.inr.inr.inr.inl => exact absurd (by simp [Instr.isBranch, flags, OPCODEFLAGS_BranchTarget]) branch
    case inr.inr.inr.inr.inr.inr.inl =>
      exact absurd (by simp [Instr.isBranch, flags, OPCODEFLAGS_BranchTarget]) branch
    case inr.inr.inr.inr.inr.inr.inr => exact absurd ((platform.flags_switch importable.1).mp flags) notSwitch
    all_goals simp [flags, operandWidth, OPCODEFLAGS_SizeMask, LittleEndian.encode]

/-- The targets of a sequence of instructions from `offset` on stand where the instructions say. -/
def TargetsStand (platform : Platform) (starts : Ptr → Nat) (find : Nat → Ptr) (offset : Nat)
    (instrs : List RawInstr) : Prop :=
  ∀ before instr after, instrs = before ++ instr :: after →
    ∀ target ∈ instr.targets platform (offset + (listingBytes platform before).length), starts (find target) = target

theorem TargetsStand.head (stand : TargetsStand platform starts find offset (instr :: rest)) :
    ∀ target ∈ instr.targets platform offset, starts (find target) = target :=
  stand [] instr rest rfl

theorem TargetsStand.tail (stand : TargetsStand platform starts find offset (instr :: rest)) :
    TargetsStand platform starts find (offset + instr.size platform) rest := by
  intro before other after split
  have there := stand (instr :: before) other after (by rw [split]; rfl)
  rwa [length_listingBytes_cons, ← Nat.add_assoc] at there

/-- The encoding of the nodes of a sequence of instructions is that sequence. -/
theorem encode_loadedNodes {starts : Ptr → Nat} {find : Nat → Ptr} {instrs : List RawInstr}
    (valid : ∀ instr ∈ instrs, instr.Valid platform)
    (stand : TargetsStand platform starts find offset instrs) (brk : Ptr) (base : Nat) :
    encodeFrom platform starts base offset ((loadedNodes platform brk offset instrs).map (resolved platform find)) =
      listingBytes platform instrs := by
  induction instrs generalizing brk offset base with
  | nil => rfl
  | cons instr rest ih =>
    obtain ⟨first, others⟩ := List.forall_mem_cons.mp valid
    have here := stand.head
    rw [listingBytes, List.flatMap_cons, loadedNodes, List.map_append, length_rawNodes]
    cases instr with
    | plain opcode operand =>
      have bytes := encode_plain first here brk base
      have size := nodeSize_plain first.1 first.2.1
      rw [← size_plain platform opcode operand] at size
      rw [rawNodes, List.map_cons, List.map_nil, List.singleton_append, encodeFrom, bytes, resolved_opcode, size]
      exact congrArg _ (ih others stand.tail _ _)
    | switch targets =>
      obtain ⟨countSmall, small⟩ := first
      have head : resolved platform find ⟨brk, CEE_SWITCH, targets.length⟩ = ⟨brk, CEE_SWITCH, targets.length⟩ :=
        if_neg (Instr.not_isBranch_of_switch rfl)
      have noSlot : slotWidth platform ⟨brk, CEE_SWITCH, targets.length⟩ = 0 := by
        simp [slotWidth, platform.flags_CEE_SWITCH, OPCODEFLAGS_BranchTarget]
      have importable : platform.Importable CEE_SWITCH := platform.importable_oneByte (by decide)
      have fixed : fixedBytes platform ⟨brk, CEE_SWITCH, targets.length⟩ =
          opcodeBytes CEE_SWITCH ++ LittleEndian.encode 4 targets.length := by
        simp [fixedBytes, headBytes_eq importable, valueBytes, platform.flags_CEE_SWITCH]
      have behind : baseBehind base offset ⟨brk, CEE_SWITCH, targets.length⟩ =
          wrap32 (offset + 1 + 4 + 4 * targets.length) := by
        rw [baseBehind, if_pos rfl]
        dsimp only
        rw [Nat.mod_eq_of_lt countSmall]
        congr 1
        omega
      have place : offset + 5 + 4 * targets.length = offset + (RawInstr.switch targets).size platform := by
        rw [size_switch]
        omega
      rw [rawNodes, List.map_cons, head, List.cons_append, encodeFrom, fixed, nodeSize_switch, behind,
        List.eq_nil_of_length_eq_zero ((length_slotBytes ..).trans noSlot), List.append_nil,
        encode_targetNodes ?_ small, place, ih others stand.tail]
      · simp [RawInstr.bytes, RawInstr.opcode, RawInstr.operandBytes, listingBytes]
      · intro target member
        have foundTarget := here (wrap32 (offset + 1 + 4 + 4 * targets.length + target))
          (List.mem_map_of_mem member)
        rwa [wrap32_add_left]

/-- A short branch reaches the target it was read with. -/
theorem near_loadedNodes {starts : Ptr → Nat} {find : Nat → Ptr} {instrs : List RawInstr}
    (valid : ∀ instr ∈ instrs, instr.Valid platform)
    (stand : TargetsStand platform starts find offset instrs) (brk : Ptr) :
    EveryAt platform (fun place node => ¬FarShort platform starts place node) offset
      ((loadedNodes platform brk offset instrs).map (resolved platform find)) := by
  induction instrs generalizing brk offset with
  | nil => trivial
  | cons instr rest ih =>
    obtain ⟨first, others⟩ := List.forall_mem_cons.mp valid
    have here := stand.head
    rw [loadedNodes, List.map_append, everyAt_append, totalSize_resolved, totalSize_rawNodes first]
    refine ⟨?_, ih others stand.tail _⟩
    cases instr with
    | plain opcode operand =>
      refine ⟨?_, trivial⟩
      rintro ⟨short, far⟩
      rw [resolved_opcode] at short far
      dsimp only at short far
      have branchFlags : platform.s_OpCodeFlags opcode &&& OPCODEFLAGS_BranchTarget ≠ 0 := by
        simp [short, OPCODEFLAGS_BranchTarget]
      have width : operandWidth platform opcode = 1 := by rw [operandWidth, short]; rfl
      have narrow : operand < 256 := by simpa [width] using first.2.2
      have target := here (storedOperand platform offset opcode operand) (by
        rw [RawInstr.targets, if_pos branchFlags]
        exact List.mem_singleton_self _)
      have inRange : storedOperand platform offset opcode operand < 2 ^ 32 := storedOperand_lt branchFlags ..
      have node : (resolved platform find ⟨brk, opcode, storedOperand platform offset opcode operand⟩).operand =
          find (storedOperand platform offset opcode operand) := by
        rw [resolved, if_pos (by exact branchFlags)]
        dsimp only
        rw [Nat.mod_eq_of_lt inRange]
      have displacement : storedOperand platform offset opcode operand =
          wrap32 (offset + nodeSize platform opcode + signExtend8 operand) := by
        rw [storedOperand_short short, nodeSize_plain first.1 first.2.1, width, ← Nat.add_assoc]
      rw [node, target, displacement, sub32_wrap32_add, wrap32_of_lt (signExtend8_lt narrow),
        fitsInt8_signExtend8 narrow] at far
      exact absurd far (by decide)
    | switch targets =>
      apply everyAt_iff.mpr
      intro before node after split far
      have member : node ∈ (rawNodes platform brk offset (.switch targets)).map (resolved platform find) := by
        rw [split]
        simp
      obtain ⟨source, listed, rfl⟩ := List.mem_map.mp member
      have short := far.1
      rw [resolved_opcode] at short
      rcases List.mem_cons.mp listed with rfl | behind
      · simp [platform.flags_CEE_SWITCH] at short
      · rw [targetNodes_opcode behind, platform.flags_switchArg] at short
        exact absurd short (by decide)

end Encoding

section Clauses

variable {platform : Platform}

private theorem sub_toNat (start length : UInt32) :
    UInt32.ofNat (sub32 (start + length).toNat start.toNat) = length := by
  have small := length.toNat_lt
  have value : sub32 (start + length).toNat start.toNat = length.toNat := by
    rw [UInt32.toNat_add, ← wrap32, sub32_wrap32_add, wrap32_of_lt small]
  rw [value, UInt32.ofNat_toNat]

/-- A clause comes back from its own nodes. -/
theorem exportedClause_importedClause {instrs : List RawInstr} {starts : Ptr → Nat} {next : Ptr → Ptr} {ehInfo : EHInfo}
    (found : ∀ position ∈ ehInfo.positions, starts (startNode platform instrs position) = position)
    (onward : next (nodeBefore (importedNodes platform instrs)
        (startNode platform instrs (ehInfo.HandlerOffset + ehInfo.HandlerLength).toNat)) =
      startNode platform instrs (ehInfo.HandlerOffset + ehInfo.HandlerLength).toNat) :
    exportedClause starts next (importedClause platform instrs ehInfo) = ehInfo := by
  simp only [EHInfo.positions, List.forall_mem_append, List.forall_mem_cons] at found
  obtain ⟨⟨tryBegin, tryEnd, handlerBegin, handlerEnd, -⟩, filter⟩ := found
  have token : (exportedClause starts next (importedClause platform instrs ehInfo)).ClassTokenOrFilterOffset =
      ehInfo.ClassTokenOrFilterOffset := by
    by_cases isFilter : ehInfo.isFilter
    · have flag : ¬ehInfo.Flags &&& COR_ILEXCEPTION_CLAUSE_FILTER = 0 := isFilter
      rw [if_pos isFilter] at filter
      simp only [exportedClause, importedClause, if_neg flag, if_pos isFilter]
      rw [filter _ (List.mem_singleton_self _), UInt32.ofNat_toNat]
    · have flag : ehInfo.Flags &&& COR_ILEXCEPTION_CLAUSE_FILTER = 0 := Decidable.not_not.mp isFilter
      simp only [exportedClause, importedClause, if_pos flag, if_neg isFilter]
  cases ehInfo
  simp only [exportedClause, importedClause] at token onward ⊢
  simp only [onward, tryBegin, tryEnd, handlerBegin, handlerEnd, sub_toNat, UInt32.ofNat_toNat, token]

end Clauses

section RoundTrip

variable {platform : Platform} {body : MethodBody} {instrs : List RawInstr} {s : ILRewriter}

/-- The exported body is the imported one, written in one pass and with the opcodes it had. -/
structure RoundTrips (body : MethodBody) (s : ILRewriter) (result : Exported) : Prop where
  code : result.body.Code = body.Code
  codeSize : result.body.CodeSize = body.Code.length
  clauses : result.body.EH = body.EH
  localVarSig : result.body.LocalVarSigTok = body.LocalVarSigTok
  initLocals : result.body.Flags &&& CorILMethod_InitLocals = body.Flags &&& CorILMethod_InitLocals
  opcodes : ∀ p ∈ s.instrs, result.rewriter.m_opcode p = s.m_opcode p
  onePass : result.passes = 1

/-- Ten bytes for every instruction and every switch target, in 32 bits. -/
def exportRoom (instrs : List RawInstr) : Nat := 10 * (instrs.map RawInstr.nodes).sum % 2 ^ 32

theorem outputRoom_importedNodes : outputRoom (importedNodes platform instrs) = exportRoom instrs := by
  rw [outputRoom, exportRoom, importedNodes, List.length_map, length_loadedNodes]

/-- What fits is written back as it was. -/
theorem roundTrips_of_fits (imported : ImportedBody platform body instrs s) (resolved : s.Resolved platform)
    (fits : body.Code.length ≤ exportRoom instrs) :
    ∃ result, s.Export platform = .ok result ∧ RoundTrips body s result := by
  have closed := resolved.closed imported.holds
  have pointers := resolved.deref imported.holds
  obtain ⟨targets, clauses⟩ := imported.resolved_iff.mp resolved
  have total := totalSize_importedNodes imported.valid
  rw [← imported.code] at total
  have stand : TargetsStand platform (startOf platform (importedNodes platform instrs)) (startNode platform instrs) 0
      instrs := by
    intro before instr after split target member
    rw [Nat.zero_add] at member
    exact startOf_startNode imported.valid (targets before instr after split target member)
  obtain ⟨result, run, assembled, onePass⟩ := Export_once imported.holds closed pointers
    (by rw [total, outputRoom_importedNodes]; exact fits) (near_loadedNodes imported.valid stand _)
  have laid := assembled.laid
  refine ⟨result, run, ?_, ?_, ?_, ?_, ?_, ?_, onePass⟩
  · rw [laid.code, imported.code]
    exact encode_loadedNodes imported.valid stand _ _
  · rw [assembled.codeSize, total]
  · rw [assembled.clauses, imported.clauses, List.map_map]
    conv_rhs => rw [← List.map_id body.EH]
    apply List.map_congr_left
    intro ehInfo member
    have boundaries := clauses ehInfo member
    have handler := boundaries (ehInfo.HandlerOffset + ehInfo.HandlerLength).toNat (by simp [EHInfo.positions])
    refine exportedClause_importedClause (fun position listed => ?_) ?_
    · have boundary := boundaries position listed
      have node := startNode_refers_iff.mpr boundary
      rw [laid.starts _ (List.mem_cons.mpr node), startOf_startNode imported.valid boundary]
    · have node := List.mem_cons.mpr (startNode_refers_iff.mpr handler)
      rw [nodeBefore, ← laid.holds.ring.prev_takeWhile node]
      exact laid.holds.ring.next_prev node
  · rw [assembled.localVarSig, imported.localVarSig]
  · rw [assembled.flags, imported.flags]
    have bit : body.Flags &&& CorILMethod_InitLocals = 0 ∨ body.Flags &&& CorILMethod_InitLocals = 0x10 := by
      have power : body.Flags &&& CorILMethod_InitLocals = (body.Flags.testBit 4).toNat * 2 ^ 4 :=
        Nat.and_two_pow body.Flags 4
      rw [power]
      cases body.Flags.testBit 4 <;> simp
    rcases bit with bit | bit <;> rw [bit] <;> split <;> decide
  · intro p member
    rw [imported.holds.instrs_eq] at member
    obtain ⟨node, listed, rfl⟩ := List.mem_map.mp member
    rw [laid.holds.opcode node listed, imported.holds.opcode node listed]

/-- What was written back has fitted. -/
theorem fits_of_roundTrips (imported : ImportedBody platform body instrs s) (resolved : s.Resolved platform)
    (run : s.Export platform = .ok result) (trips : RoundTrips body s result) :
    body.Code.length ≤ exportRoom instrs := by
  obtain ⟨nodes', assembled⟩ := Export_eq_ok imported.holds (resolved.closed imported.holds) run
  have length := congrArg List.length assembled.laid.code
  rw [length_encodeFrom, trips.code] at length
  have fits := assembled.laid.fits
  rwa [length, ← outputRoom_importedNodes]

/-- Export inverts Import exactly where the code fits into ten bytes a node, counted
in 32 bits. -/
theorem export_inverts_import_iff (accepted : Import platform body = .ok s) (resolved : s.Resolved platform) :
    (∃ result, s.Export platform = .ok result ∧ RoundTrips body s result) ↔
      ∀ instrs : List RawInstr, (∀ instr ∈ instrs, instr.Valid platform) → body.Code = listingBytes platform instrs →
        body.Code.length ≤ exportRoom instrs := by
  obtain ⟨instrs, imported⟩ := Import_eq_ok accepted
  constructor
  · rintro ⟨result, run, trips⟩ instrs' valid code
    exact fits_of_roundTrips (Import_listing valid code accepted) resolved run trips
  · intro fits
    exact roundTrips_of_fits imported resolved (fits instrs imported.valid imported.code)

end RoundTrip

section Witness

/-- A try block from the first instruction on, left over a finally handler to a RET. -/
def leftTry : MethodBody where
  Flags := 0
  MaxStack := 8
  LocalVarSigTok := 0
  Code := [0x00, 0xDE, 0x01, 0xDC, 0x2A]
  EH := [⟨2, 0, 3, 3, 1, 0⟩]
  maxStack_lt := smallStack_lt
  inImage := by decide
  clauses_le := by decide

def leftTryInstrs : List RawInstr :=
  [.plain CEE_NOP 0, .plain CEE_LEAVE_S 1, .plain 0xDC 0, .plain CEE_RET 0]

theorem leftTry_code : leftTry.Code = listingBytes Ecma335.platform leftTryInstrs := by decide

theorem leftTry_boundary (listed : position ∈ [0, 1, 3, 4]) :
    Boundary Ecma335.platform leftTryInstrs position := by
  simp only [List.mem_cons, List.not_mem_nil, or_false] at listed
  rcases listed with rfl | rfl | rfl | rfl
  · exact ⟨[], leftTryInstrs, rfl, rfl⟩
  · exact ⟨leftTryInstrs.take 1, leftTryInstrs.drop 1, rfl, by decide⟩
  · exact ⟨leftTryInstrs.take 2, leftTryInstrs.drop 2, rfl, by decide⟩
  · exact ⟨leftTryInstrs.take 3, leftTryInstrs.drop 3, rfl, by decide⟩

theorem leftTry_valid : ∀ instr ∈ leftTryInstrs, instr.Valid Ecma335.platform := by
  intro instr member
  simp only [leftTryInstrs, List.mem_cons, List.not_mem_nil, or_false] at member
  rcases member with rfl | rfl | rfl | rfl <;> (simp only [RawInstr.Valid]; decide)

theorem leftTry_targets : WellTargeted Ecma335.platform leftTryInstrs := by
  intro before instr after split target member
  rcases before with - | ⟨one, - | ⟨two, - | ⟨three, - | ⟨four, rest⟩⟩⟩⟩ <;> simp [leftTryInstrs] at split
  · obtain ⟨rfl, -⟩ := split
    exact absurd member (List.not_mem_nil (a := target))
  · obtain ⟨rfl, rfl, -⟩ := split
    obtain rfl : target = 4 := List.mem_singleton.mp member
    exact leftTry_boundary (by decide)
  · obtain ⟨-, -, rfl, -⟩ := split
    exact absurd member (List.not_mem_nil (a := target))
  · obtain ⟨-, -, -, rfl, -⟩ := split
    exact absurd member (List.not_mem_nil (a := target))

theorem leftTry_imported : ∃ s, Import Ecma335.platform leftTry = .ok s ∧
    ImportedBody Ecma335.platform leftTry leftTryInstrs s ∧ s.Resolved Ecma335.platform := by
  have clauses : ∀ ehInfo ∈ leftTry.EH, ∀ position ∈ ehInfo.positions,
      Boundary Ecma335.platform leftTryInstrs position := by
    intro ehInfo member position listed
    obtain rfl := List.mem_singleton.mp member
    exact leftTry_boundary (by revert position; decide)
  obtain ⟨s, run, imported⟩ := Import_of_listing leftTry_valid leftTry_code fun ehInfo member =>
    clauses ehInfo member _ (by simp [EHInfo.positions])
  exact ⟨s, run, imported, imported.resolved_iff.mpr ⟨leftTry_targets, clauses⟩⟩

/-- Whatever the code is read as, it has four nodes. -/
theorem export_inverts_import_iff_leftTry : ∃ s result, Import Ecma335.platform leftTry = .ok s ∧
    s.Export Ecma335.platform = .ok result ∧ RoundTrips leftTry s result := by
  obtain ⟨s, run, imported, resolved⟩ := leftTry_imported
  obtain ⟨result, exported, trips⟩ := (export_inverts_import_iff run resolved).mpr fun instrs valid code => by
    have listing := (Import_listing valid code run).holds.listing_eq.symm.trans imported.holds.listing_eq
    rw [← outputRoom_importedNodes, listing]
    decide
  exact ⟨s, result, run, exported, trips⟩

end Witness

section Nops

/-- A body of `nop`s alone. -/
def nops (count : Nat) (inImage : count + 12 < 2 ^ 32) : MethodBody where
  Flags := 0
  MaxStack := 8
  LocalVarSigTok := 0
  Code := List.replicate count (UInt8.ofNat CEE_NOP)
  EH := []
  maxStack_lt := smallStack_lt
  inImage := by rwa [List.length_replicate]
  clauses_le := noClauses_le

variable (platform : Platform) (count : Nat) (inImage : count + 12 < 2 ^ 32)

private theorem nop_bytes : (RawInstr.plain CEE_NOP 0).bytes platform = [UInt8.ofNat CEE_NOP] := by
  simp [RawInstr.bytes, RawInstr.opcode, RawInstr.operandBytes, operandWidth, platform.flags_CEE_NOP, opcodeBytes,
    LittleEndian.encode, OPCODEFLAGS_SizeMask]
  rfl

private theorem nops_listing :
    (nops count inImage).Code = listingBytes platform (List.replicate count (.plain CEE_NOP 0)) := by
  have bytes (count : Nat) : listingBytes platform (List.replicate count (.plain CEE_NOP 0)) =
      List.replicate count (UInt8.ofNat CEE_NOP) := by
    induction count with
    | zero => rfl
    | succ count ih =>
      rw [List.replicate_succ, List.replicate_succ, listingBytes, List.flatMap_cons, nop_bytes, ← listingBytes, ih]
      rfl
  exact (bytes count).symm

theorem nops_imported : ∃ s, Import platform (nops count inImage) = .ok s ∧
    ImportedBody platform (nops count inImage) (List.replicate count (.plain CEE_NOP 0)) s ∧ s.Resolved platform := by
  have valid : ∀ instr ∈ List.replicate count (RawInstr.plain CEE_NOP 0), instr.Valid platform := by
    intro instr member
    obtain rfl := List.eq_of_mem_replicate member
    refine ⟨platform.importable_oneByte (by decide), by decide, ?_⟩
    simp [operandWidth, platform.flags_CEE_NOP]
  obtain ⟨s, run, imported⟩ := Import_of_listing valid (nops_listing platform count inImage) (by simp [nops])
  refine ⟨s, run, imported, imported.resolved_iff.mpr ⟨?_, by simp [nops]⟩⟩
  intro before instr after split target member
  have nop : instr ∈ List.replicate count (RawInstr.plain CEE_NOP 0) := by
    rw [split]
    simp
  obtain rfl := List.eq_of_mem_replicate nop
  simp [RawInstr.targets, platform.flags_CEE_NOP] at member

private theorem nops_overflow (overflow : 10 * count % 2 ^ 32 < count) :
    ∃ s, Import platform (nops count inImage) = .ok s ∧ s.Resolved platform ∧
      ¬∃ result, s.Export platform = .ok result ∧ RoundTrips (nops count inImage) s result := by
  obtain ⟨s, run, imported, resolved⟩ := nops_imported platform count inImage
  refine ⟨s, run, resolved, ?_⟩
  rintro ⟨result, exported, trips⟩
  have fits := fits_of_roundTrips imported resolved exported trips
  rw [exportRoom, List.map_replicate, List.sum_replicate, nops, List.length_replicate] at fits
  simp only [RawInstr.nodes, smul_eq_mul, Nat.mul_one] at fits
  omega

/-- 429496730 `nop`s ask for 4294967300 bytes of room and get four. -/
theorem nopSled_overflows : (nops 429496730 (by decide)).Code.length < 2 ^ 31 ∧
    ∃ s, Import Ecma335.platform (nops 429496730 (by decide)) = .ok s ∧ s.Resolved Ecma335.platform ∧
      ¬∃ result, s.Export Ecma335.platform = .ok result ∧ RoundTrips (nops 429496730 (by decide)) s result := by
  refine ⟨?_, nops_overflow Ecma335.platform 429496730 (by decide) (by decide)⟩
  rw [nops, List.length_replicate]
  decide

end Nops

end ClrProfiling
