import ClrProfiling.Host.Steps
import ClrProfiling.IL.Layers

/-! Method bodies as the runtime delivers them from the memory it is given: tiny bodies, and the
fat ones that Export writes. -/

namespace ClrProfiling

open Word ILRewriter

section Decoding

/-- A tiny body: a byte that holds the size of the code, and the code. -/
def parseTiny (bytes : List UInt8) : Except Failure ParsedBody := do
  let header ← fetch bytes 0 1
  let codeSize := header >>> 2
  if 1 + codeSize > bytes.length then .error .COR_E_INVALIDPROGRAM
  else pure {
    Flags := CorILMethod_TinyFormat
    MaxStack := 8
    CodeSize := codeSize
    LocalVarSigTok := 0
    Code := (bytes.drop 1).take codeSize
    EH := []
    sectionEnd := none }

/-- The two lowest bits of a body tell its format. -/
def parseBody (bytes : List UInt8) : Except Failure ParsedBody :=
  if (bytes.headD 0).toNat % 2 ^ 2 = CorILMethod_TinyFormat then parseTiny bytes else parseFat bytes

/-- What COR_ILMETHOD_DECODER delivers of a parsed body. -/
def ParsedBody.delivered (parsed : ParsedBody) : Option MethodBody :=
  if fits : parsed.MaxStack < 2 ^ 16 ∧ parsed.Code.length + 12 < 2 ^ 32 ∧ parsed.EH.length ≤ 699050 then
    some {
      Flags := parsed.Flags
      MaxStack := parsed.MaxStack
      LocalVarSigTok := parsed.LocalVarSigTok
      Code := parsed.Code
      EH := parsed.EH
      maxStack_lt := fits.1
      inImage := fits.2.1
      clauses_le := fits.2.2 }
  else none

def decodeBody (bytes : List UInt8) : Option MethodBody := (parseBody bytes).toOption.bind ParsedBody.delivered

end Decoding

section Tiny

/-- The header of a tiny body holds its size, and marks it as tiny. -/
theorem decodeBody_tiny {code : List UInt8} (small : code.length < 2 ^ 6) :
    ∃ body : MethodBody, decodeBody (UInt8.ofNat (CorILMethod_TinyFormat ||| code.length <<< 2) :: code) = some body ∧
      body.Code = code ∧ body.EH = [] ∧ body.LocalVarSigTok = 0 := by
  have header : CorILMethod_TinyFormat ||| code.length <<< 2 = 4 * code.length + 2 := by
    rw [Nat.or_comm, Nat.shiftLeft_eq, CorILMethod_TinyFormat, Nat.mul_comm code.length]
    exact (Nat.two_pow_add_eq_or_of_lt (i := 2) (by decide) code.length).symm
  have byte : (UInt8.ofNat (CorILMethod_TinyFormat ||| code.length <<< 2)).toNat = 4 * code.length + 2 := by
    rw [header, UInt8.toNat_ofNat', Nat.mod_eq_of_lt (by omega)]
  have tiny : (4 * code.length + 2) % 2 ^ 2 = CorILMethod_TinyFormat := by
    rw [CorILMethod_TinyFormat]
    omega
  have first : fetch (UInt8.ofNat (CorILMethod_TinyFormat ||| code.length <<< 2) :: code) 0 1 =
      .ok (4 * code.length + 2) := by
    rw [fetch, if_pos (by simp), List.drop_zero, List.take_succ_cons, List.take_zero]
    exact congrArg Except.ok byte
  have size : (4 * code.length + 2) >>> 2 = code.length := by
    rw [Nat.shiftRight_eq_div_pow]
    omega
  have parsed : parseBody (UInt8.ofNat (CorILMethod_TinyFormat ||| code.length <<< 2) :: code) =
      .ok ⟨CorILMethod_TinyFormat, 8, code.length, 0, code, [], none⟩ := by
    rw [parseBody, List.headD_cons, byte, if_pos tiny, parseTiny, first, Outcome.ok_bind]
    simp only [size, List.length_cons, List.drop_one, List.tail_cons, List.take_length]
    rw [if_neg (by omega), Outcome.pure_eq]
  have fits : 8 < 2 ^ 16 ∧ code.length + 12 < 2 ^ 32 ∧ ([] : List EHInfo).length ≤ 699050 :=
    ⟨by decide, by omega, by decide⟩
  refine ⟨⟨CorILMethod_TinyFormat, 8, 0, code, [], fits.1, fits.2.1, fits.2.2⟩, ?_, rfl, rfl, rfl⟩
  rw [decodeBody, parsed]
  exact dif_pos fits

end Tiny

section Writes

variable {platform : Platform} {fat : FatBody}

theorem storeWords_eq_ok {buffer after : Buffer} {words : List Nat} (run : storeWords buffer offset words = .ok after) :
    Written buffer offset (wordBytes words) after := by
  induction words generalizing buffer offset with
  | nil =>
    cases run
    exact .nil ..
  | cons word rest ih =>
    obtain ⟨middle, stored, others⟩ := Outcome.bind_eq_ok_iff.mp run
    rw [wordBytes_cons]
    exact (store_eq_ok stored).append (by rw [LittleEndian.length_encode]; exact ih others)

theorem storeClauses_eq_ok {buffer after : Buffer} {clauses : List EHInfo}
    (run : storeClauses buffer offset clauses = .ok after) : Written buffer offset (clauseBytes clauses) after := by
  induction clauses generalizing buffer offset with
  | nil =>
    cases run
    exact .nil ..
  | cons clause rest ih =>
    obtain ⟨middle, stored, others⟩ := Outcome.bind_eq_ok_iff.mp run
    have next : (wordBytes clause.words).length = sizeofClauseFat := length_wordBytes _
    rw [clauseBytes, List.flatMap_cons]
    exact (storeWords_eq_ok stored).append (by rw [next]; exact ih others)

/-- Where the memory has been large enough, the parts of a body stand in it. -/
theorem stands_of_WriteBody {pBody : Buffer} (codeSize : fat.CodeSize = fat.Code.length)
    (written : WriteBody platform fat = .ok pBody) :
    fat.Code.length + 12 < 2 ^ 32 ∧
      Stands (pBody.read 0 pBody.size) 0 (wordBytes [fat.Flags + 2 ^ 12 * fat.Size + 2 ^ 16 * fat.MaxStack,
        fat.CodeSize, fat.LocalVarSigTok] ++ fat.Code) ∧
      (fat.EH ≠ [] → Stands (pBody.read 0 pBody.size) (sizeofFat + (fat.Code.length + 3) / 4 * 4)
        (wordBytes [fat.Kind + 2 ^ 8 * fat.DataSize] ++ clauseBytes fat.EH)) := by
  obtain ⟨headed, head, rest⟩ := Outcome.bind_eq_ok_iff.mp written
  obtain ⟨coded, code, rest⟩ := Outcome.bind_eq_ok_iff.mp rest
  have first := storeWords_eq_ok head
  have front := first.append (by rw [length_wordBytes]; exact store_eq_ok code)
  have nonempty : wordBytes [fat.Flags + 2 ^ 12 * fat.Size + 2 ^ 16 * fat.MaxStack, fat.CodeSize,
      fat.LocalVarSigTok] ++ fat.Code ≠ [] := by
    intro none
    have empty := congrArg List.length none
    rw [List.length_append, length_wordBytes] at empty
    simp at empty
  have frontLength : (wordBytes [fat.Flags + 2 ^ 12 * fat.Size + 2 ^ 16 * fat.MaxStack, fat.CodeSize,
      fat.LocalVarSigTok] ++ fat.Code).length = sizeofFat + fat.Code.length := by
    rw [List.length_append, length_wordBytes]
    rfl
  have room := front.fits nonempty
  rw [frontLength, Nat.zero_add] at room
  have small : fat.Code.length + 12 < 2 ^ 32 := by
    have bound : _ ≤ _ := room
    dsimp only at bound
    have word : totalBodySize fat.CodeSize fat.EH.length < 2 ^ 32 := wrap32_lt _
    simp only [sizeofFat] at bound word
    omega
  have aligned : alignedCodeSize fat.CodeSize = (fat.Code.length + 3) / 4 * 4 := by
    rw [codeSize, alignedCodeSize_eq (by omega)]
  have inFront : 0 + (wordBytes [fat.Flags + 2 ^ 12 * fat.Size + 2 ^ 16 * fat.MaxStack, fat.CodeSize,
      fat.LocalVarSigTok] ++ fat.Code).length ≤ coded.size := by
    rw [frontLength, front.size, Nat.zero_add]
    exact room
  refine ⟨small, ?_⟩
  by_cases clauses : fat.EH.length = 0
  · rw [if_neg (not_not.mpr clauses)] at rest
    cases rest
    exact ⟨stands_of_read front.content inFront, fun some => absurd (List.length_eq_zero_iff.mp clauses) some⟩
  · rw [if_pos clauses] at rest
    obtain ⟨kinded, kind, table⟩ := Outcome.bind_eq_ok_iff.mp rest
    rw [aligned] at kind table
    have back := (storeWords_eq_ok kind).append (by rw [length_wordBytes]; exact storeClauses_eq_ok table)
    have inBack := back.fits (by simp [wordBytes_cons, ← List.length_eq_zero_iff])
    constructor
    · refine stands_of_read ?_ (by rw [back.size]; exact inFront)
      refine Eq.trans (Buffer.read_congr fun i _ upper => back.elsewhere i (.inl ?_)) front.content
      rw [frontLength, Nat.zero_add] at upper
      omega
    · exact fun _ => stands_of_read back.content (by rw [back.size]; exact inBack)

/-- What Export has made of a body with hooks can be written, if it is not too long. -/
theorem WriteBody_injected {original : MethodBody} {hooks : Hooks} {instrs : List RawInstr} {result : Exported}
    (instrumentable : Instrumentable platform original instrs)
    (run : InjectEnterExitHooks platform original hooks = .ok result)
    (room : result.body.Code.length + 24 * result.body.EH.length < 2 ^ 31) :
    ∃ pBody, WriteBody platform result.body = .ok pBody := by
  obtain ⟨-, -, count, -, exported⟩ := injected_body instrumentable.valid instrumentable.code run
  have few : result.rewriter.m_pEH.length ≤ 699050 := count ▸ original.clauses_le
  obtain ⟨-, codeSize, -⟩ := ExportBody_fields few exported
  obtain ⟨pBody, written, -⟩ := WriteBody_succeeds platform codeSize room
  exact ⟨pBody, written⟩

/-- What Export has written is delivered with its code and its clauses, and with the header that was imported. -/
theorem decodeBody_written {original : MethodBody} {hooks : Hooks} {instrs : List RawInstr} {result : Exported}
    {pBody : Buffer} (instrumentable : Instrumentable platform original instrs)
    (token : original.LocalVarSigTok < 2 ^ 32)
    (run : InjectEnterExitHooks platform original hooks = .ok result)
    (written : WriteBody platform result.body = .ok pBody) :
    ∃ body : MethodBody, decodeBody (pBody.read 0 pBody.size) = some body ∧ body.Code = result.body.Code ∧
      body.EH = result.body.EH ∧ body.LocalVarSigTok = original.LocalVarSigTok ∧
      (body.Flags &&& CorILMethod_InitLocals ≠ 0 ↔ original.Flags &&& CorILMethod_InitLocals ≠ 0) := by
  obtain ⟨kept, localVarSig, count, -, exported⟩ := injected_body instrumentable.valid instrumentable.code run
  have few : result.rewriter.m_pEH.length ≤ 699050 := count ▸ original.clauses_le
  obtain ⟨-, codeSize, size, maxStack, tok, flagBits, converted, sect⟩ := ExportBody_fields few exported
  obtain ⟨flagsSmall, format, initLocals, moreSects⟩ := exportFlags_cases original.Flags result.rewriter.m_pEH.length
  have masked : result.rewriter.m_flags = original.Flags &&& CorILMethod_InitLocals := kept
  rw [← masked, ← flagBits] at flagsSmall format initLocals moreSects
  have sig : result.body.LocalVarSigTok = original.LocalVarSigTok := tok.trans localVarSig
  have length : result.rewriter.m_pEH.length = result.body.EH.length := by rw [converted, List.length_map]
  obtain ⟨small, front, back⟩ := stands_of_WriteBody codeSize written
  have parsed := parseFat_of_stands flagsSmall format size maxStack codeSize (by omega) (by rw [sig]; exact token) front
  have fat : ¬((pBody.read 0 pBody.size).headD 0).toNat % 2 ^ 2 = CorILMethod_TinyFormat := by
    obtain ⟨before, behind, whole, none⟩ := front
    rw [List.length_eq_zero_iff.mp none, List.nil_append, wordBytes_cons, LittleEndian.encode, List.cons_append,
      List.cons_append, List.cons_append] at whole
    rw [whole, List.headD_cons, UInt8.toNat_ofNat', CorILMethod_TinyFormat]
    rw [CorILMethod_FatFormat] at format
    omega
  have fits : result.body.MaxStack < 2 ^ 16 ∧ result.body.Code.length + 12 < 2 ^ 32 ∧
      result.body.EH.length ≤ 699050 := ⟨maxStack, small, length ▸ few⟩
  have delivered (sectionEnd : Option Nat) : ∃ body : MethodBody,
      ParsedBody.delivered ⟨result.body.Flags, result.body.MaxStack, result.body.CodeSize, result.body.LocalVarSigTok,
        result.body.Code, result.body.EH, sectionEnd⟩ = some body ∧ body.Code = result.body.Code ∧
      body.EH = result.body.EH ∧ body.LocalVarSigTok = original.LocalVarSigTok ∧
      (body.Flags &&& CorILMethod_InitLocals ≠ 0 ↔ original.Flags &&& CorILMethod_InitLocals ≠ 0) := by
    refine ⟨_, dif_pos fits, rfl, rfl, sig, ?_⟩
    rw [masked] at initLocals
    exact initLocals
  rw [decodeBody, parseBody, if_neg fat, parsed]
  by_cases none : result.rewriter.m_pEH.length = 0
  · have noSects : result.body.Flags &&& CorILMethod_MoreSects = 0 := by
      by_contra sects
      exact moreSects.mp sects none
    have empty : result.body.EH = [] := List.length_eq_zero_iff.mp (length ▸ none)
    rw [if_pos noSects]
    rw [empty] at delivered ⊢
    exact delivered _
  · obtain ⟨kind, dataSize⟩ := sect none
    have present : result.body.EH ≠ [] := by
      intro empty
      rw [empty] at length
      exact none length
    have behind := back present
    rw [kind, dataSize, length] at behind
    have table := parseSection_of_stands (length ▸ few) behind
    have start : (sizeofFat + result.body.CodeSize + 3) / 4 * 4 =
        sizeofFat + (result.body.Code.length + 3) / 4 * 4 := by
      rw [codeSize]
      simp only [sizeofFat]
      omega
    rw [start, table, if_neg (moreSects.mpr none)]
    exact delivered _

end Writes

/-- What ECMA-335 gives to the opcodes that only the stubs have. -/
structure StubOpcodes (defs : OpcodeDef) : Prop where
  ldarg_0 : defs.args CEE_LDARG_0 = .InlineNone
  callvirt : defs.args CEE_CALLVIRT = .InlineMethod
  ldsfld : defs.args CEE_LDSFLD = .InlineField
  stsfld : defs.args CEE_STSFLD = .InlineField

/-- A body that can be instrumented, with a token for its local variables. -/
structure SoundBody (platform : Platform) (body : MethodBody) : Prop where
  token : body.LocalVarSigTok < 2 ^ 32
  instrumentable : ∃ instrs, Instrumentable platform body instrs

section Stubs

variable {platform : Platform}

/-- Bytes that are instructions, each one encoding behind the other. -/
def Listing (platform : Platform) (code : List UInt8) : Prop :=
  ∃ instrs : List RawInstr, (∀ instr ∈ instrs, instr.Valid platform) ∧ code = listingBytes platform instrs

private theorem Listing.append {front back : List UInt8} (first : Listing platform front)
    (second : Listing platform back) : Listing platform (front ++ back) := by
  obtain ⟨instrs, valid, rfl⟩ := first
  obtain ⟨others, valid', rfl⟩ := second
  exact ⟨instrs ++ others, List.forall_mem_append.mpr ⟨valid, valid'⟩, by simp [listingBytes]⟩

private theorem listing_plain {opcode width : Nat} (small : opcode < 0xF8) (plain : opcode ≠ CEE_SWITCH)
    (flags : platform.s_OpCodeFlags opcode = width) (size : width &&& OPCODEFLAGS_SizeMask = width) (operand : Nat)
    (narrow : operand < 256 ^ width) :
    Listing platform (UInt8.ofNat opcode :: LittleEndian.encode width operand) := by
  have width' : operandWidth platform opcode = width := by rw [operandWidth, flags, size]
  refine ⟨[.plain opcode operand], ?_, ?_⟩
  · rw [List.forall_mem_singleton]
    exact ⟨platform.importable_oneByte small, plain, by rwa [width']⟩
  · rw [listingBytes, List.flatMap_singleton, RawInstr.bytes, RawInstr.opcode, RawInstr.operandBytes, width',
      opcodeBytes, if_pos (by omega)]
    simp [LittleEndian.encode, Nat.mod_eq_of_lt (show opcode < 256 by omega)]

private theorem listing_token {opcode : Nat} (small : opcode < 0xF8) (plain : opcode ≠ CEE_SWITCH)
    (flags : platform.s_OpCodeFlags opcode = 4) (token : mdToken) : Listing platform (tokenInstr opcode token) :=
  listing_plain small plain flags (by decide) token.toNat token.toNat_lt

private theorem listing_ret : Listing platform [UInt8.ofNat CEE_RET] :=
  listing_plain (by decide) (by decide) platform.flags_CEE_RET (by decide) 0 (by decide)

private theorem flags_of_args {opcode : Nat} {kind : OperandKind} (small : opcode < 0x100)
    (args : platform.args opcode = kind) : platform.s_OpCodeFlags opcode = kind.flags := by
  rw [platform.flags_of_lt (Nat.lt_of_lt_of_le small platform.onePage), args]

private theorem sound_tiny {code : List UInt8} (listing : Listing platform code) (small : code.length < 2 ^ 6) :
    ∃ body, decodeBody (tinyBody code) = some body ∧ SoundBody platform body := by
  obtain ⟨body, decoded, same, clauses, token⟩ := decodeBody_tiny small
  obtain ⟨instrs, valid, bytes⟩ := listing
  have none (ehInfo : EHInfo) : ehInfo ∉ body.EH := by
    rw [clauses]
    exact List.not_mem_nil
  refine ⟨body, decoded, by rw [token]; decide, instrs, valid, same.trans bytes, ?_⟩
  exact ⟨fun ehInfo member => absurd member (none ehInfo), fun ehInfo member => absurd member (none ehInfo),
    fun ehInfo member => absurd member (none ehInfo), fun _ _ _ _ ehInfo member => absurd member (none ehInfo)⟩

/-- What the instrumenters define can be instrumented itself. -/
theorem Stub.sound {pBody : List UInt8} (stub : Stub pBody) (opcodes : StubOpcodes platform.toOpcodeDef) :
    ∃ body, decodeBody pBody = some body ∧ SoundBody platform body := by
  have call (token : mdToken) : Listing platform (tokenInstr CEE_CALL token) :=
    listing_token (by decide) (by decide) platform.flags_CEE_CALL token
  have callvirt (token : mdToken) : Listing platform (tokenInstr CEE_CALLVIRT token) :=
    listing_token (by decide) (by decide) (flags_of_args (by decide) opcodes.callvirt) token
  have ldsfld (token : mdToken) : Listing platform (tokenInstr CEE_LDSFLD token) :=
    listing_token (by decide) (by decide) (flags_of_args (by decide) opcodes.ldsfld) token
  have stsfld (token : mdToken) : Listing platform (tokenInstr CEE_STSFLD token) :=
    listing_token (by decide) (by decide) (flags_of_args (by decide) opcodes.stsfld) token
  have ldarg : Listing platform [UInt8.ofNat CEE_LDARG_0] :=
    listing_plain (by decide) (by decide) (flags_of_args (by decide) opcodes.ldarg_0) (by decide) 0 (by decide)
  cases stub with
  | hookBridgeCtor getAppDomain injectProfilerCore =>
    exact sound_tiny (((call _).append (call _)).append listing_ret) (by simp [tokenInstr])
  | methodHook hook => exact sound_tiny ((ldarg.append (call _)).append listing_ret) (by simp [tokenInstr])
  | actionProxy actionField actionInvokeMethod =>
    exact sound_tiny (((ldsfld _).append (callvirt _)).append listing_ret) (by simp [tokenInstr])
  | initializeBridge captured captureCallback resumed resumeCallback =>
    exact sound_tiny ((((ldsfld _).append (stsfld _)).append ((ldsfld _).append (stsfld _))).append listing_ret)
      (by simp [tokenInstr, ProfilerCoreModuleInstrumenter.SetCallbackIL])

end Stubs

end ClrProfiling
