import ClrProfiling.IL.Regions

/-! The bytes of the fat method body: how Export lays out the header, the code and the
exception section in the memory it allocates, and how ECMA-335 reads them. -/

namespace ClrProfiling

open Word ILRewriter

/-- The sizes of IMAGE_COR_ILMETHOD_FAT, of a fat section header and of a fat clause. -/
abbrev sizeofFat : Nat := 12
abbrev sizeofSectFat : Nat := 4
abbrev sizeofClauseFat : Nat := 24

/-- The DWORDs of IMAGE_COR_ILMETHOD_SECT_EH_CLAUSE_FAT. -/
def EHInfo.words (clause : EHInfo) : List Nat :=
  [clause.Flags.toNat, clause.TryOffset.toNat, clause.TryLength.toNat, clause.HandlerOffset.toNat,
    clause.HandlerLength.toNat, clause.ClassTokenOrFilterOffset.toNat]

section Writing

/-- Assignments to the DWORDs of a struct, one behind the other. -/
def storeWords : Buffer → (offset : Nat) → List Nat → Except Failure Buffer
  | buffer, _, [] => .ok buffer
  | buffer, offset, word :: rest => do
    let buffer ← store buffer offset (LittleEndian.encode 4 word)
    storeWords buffer (offset + 4) rest

/-- The loop over the clauses. -/
def storeClauses : Buffer → (pCurrent : Nat) → List EHInfo → Except Failure Buffer
  | buffer, _, [] => .ok buffer
  | buffer, pCurrent, clause :: rest => do
    let buffer ← storeWords buffer pCurrent clause.words
    storeClauses buffer (pCurrent + sizeofClauseFat) rest

/-- `(offset + 3) & ~3` in 32 bits. -/
def alignedCodeSize (offset : Nat) : Nat := wrap32 (offset + 3) &&& 0xFFFFFFFC

/-- The size Export asks `AllocateILMemory` for, in 32 bits. -/
def totalBodySize (codeSize m_nEH : Nat) : Nat :=
  wrap32 (sizeofFat + alignedCodeSize codeSize + if m_nEH ≠ 0 then sizeofSectFat + sizeofClauseFat * m_nEH else 0)

/-- The memory behind `AllocateILMemory(totalSize)` once it holds a body. The bit fields of a
struct share a DWORD. -/
def WriteBody (platform : Platform) (body : FatBody) : Except Failure Buffer := do
  let m_nEH := body.EH.length
  let aligned := alignedCodeSize body.CodeSize
  let pBody : Buffer := { size := totalBodySize body.CodeSize m_nEH, byte := platform.uninitialised }
  let pBody ← storeWords pBody 0
    [body.Flags + 2 ^ 12 * body.Size + 2 ^ 16 * body.MaxStack, body.CodeSize, body.LocalVarSigTok]
  let pBody ← store pBody sizeofFat body.Code
  if m_nEH ≠ 0 then
    let pCurrent := sizeofFat + aligned
    let pBody ← storeWords pBody pCurrent [body.Kind + 2 ^ 8 * body.DataSize]
    storeClauses pBody (pCurrent + sizeofSectFat) body.EH
  else pure pBody

/-- What Export does once it has that memory. -/
def ILRewriter.WrittenBody (platform : Platform) (s : ILRewriter) (code : List UInt8) : Except Failure Buffer := do
  let body ← s.ExportBody code
  WriteBody platform body

/-- The rewriter looks behind a null pointer or leaves its memory. -/
def Breaks (platform : Platform) (body : MethodBody) (hooks : Hooks) : Prop :=
  ∃ failure, failure.isHResult = false ∧
    (do
      let (rewriter, code) ← Rewrite platform body hooks
      rewriter.WrittenBody platform code) = .error failure

end Writing

section Refusals

variable {platform : Platform} {failure : Failure}

private theorem ExportClause_refuses {s : ILRewriter} {clause : EHClause}
    (run : s.ExportClause clause = .error failure) : failure = .invalidPointer := by
  rcases Outcome.bind_eq_error_iff.mp run with stray | ⟨tryBegin, -, run⟩
  · exact deref_eq_error stray
  rcases Outcome.bind_eq_error_iff.mp run with stray | ⟨tryEnd, -, run⟩
  · exact deref_eq_error stray
  rcases Outcome.bind_eq_error_iff.mp run with stray | ⟨handlerBegin, -, run⟩
  · exact deref_eq_error stray
  rcases Outcome.bind_eq_error_iff.mp run with stray | ⟨handlerEnd, -, run⟩
  · exact deref_eq_error stray
  split at run
  · cases run
  · rcases Outcome.bind_eq_error_iff.mp run with stray | ⟨filter, -, done⟩
    · exact deref_eq_error stray
    · cases done

private theorem storeWords_refuses {words : List Nat} {buffer : Buffer}
    (run : storeWords buffer offset words = .error failure) : failure = .outOfBounds := by
  induction words generalizing buffer offset with
  | nil => cases run
  | cons word rest ih =>
    rcases Outcome.bind_eq_error_iff.mp run with outside | ⟨middle, -, later⟩
    · exact store_refuses outside
    · exact ih later

private theorem storeClauses_refuses {clauses : List EHInfo} {buffer : Buffer}
    (run : storeClauses buffer offset clauses = .error failure) : failure = .outOfBounds := by
  induction clauses generalizing buffer offset with
  | nil => cases run
  | cons clause rest ih =>
    rcases Outcome.bind_eq_error_iff.mp run with outside | ⟨middle, -, later⟩
    · exact storeWords_refuses outside
    · exact ih later

private theorem WriteBody_refuses {fat : FatBody} (run : WriteBody platform fat = .error failure) :
    failure = .outOfBounds := by
  rcases Outcome.bind_eq_error_iff.mp run with outside | ⟨headed, -, run⟩
  · exact storeWords_refuses outside
  rcases Outcome.bind_eq_error_iff.mp run with outside | ⟨coded, -, run⟩
  · exact store_refuses outside
  split at run
  · rcases Outcome.bind_eq_error_iff.mp run with outside | ⟨kinded, -, run⟩
    · exact storeWords_refuses outside
    · exact storeClauses_refuses run
  · cases run

theorem WrittenBody_refuses {s : ILRewriter} {code : List UInt8}
    (run : s.WrittenBody platform code = .error failure) : failure = .invalidPointer ∨ failure = .outOfBounds := by
  rcases Outcome.bind_eq_error_iff.mp run with stray | ⟨fat, -, outside⟩
  · rcases Outcome.bind_eq_error_iff.mp stray with stray | ⟨clauses, -, done⟩
    · obtain ⟨clause, stray⟩ := Outcome.mapM_eq_error stray
      exact .inl (ExportClause_refuses stray)
    · cases done
  · exact .inr (WriteBody_refuses outside)

end Refusals

section Reading

/-- A method body as ECMA-335, Partition II, 25.4 reads it; `sectionEnd` is the end of the
exception section. -/
structure ParsedBody where
  Flags : Nat
  MaxStack : Nat
  CodeSize : Nat
  LocalVarSigTok : Nat
  Code : List UInt8
  EH : List EHInfo
  sectionEnd : Option Nat
deriving DecidableEq, Repr

def parseClause (bytes : List UInt8) (offset : Nat) : Except Failure EHInfo := do
  let flags ← fetch bytes offset 4
  let tryOffset ← fetch bytes (offset + 4) 4
  let tryLength ← fetch bytes (offset + 8) 4
  let handlerOffset ← fetch bytes (offset + 12) 4
  let handlerLength ← fetch bytes (offset + 16) 4
  let tokenOrFilter ← fetch bytes (offset + 20) 4
  pure {
    Flags := UInt32.ofNat flags
    TryOffset := UInt32.ofNat tryOffset
    TryLength := UInt32.ofNat tryLength
    HandlerOffset := UInt32.ofNat handlerOffset
    HandlerLength := UInt32.ofNat handlerLength
    ClassTokenOrFilterOffset := UInt32.ofNat tokenOrFilter }

def parseClauses (bytes : List UInt8) : (count : Nat) → (offset : Nat) → Except Failure (List EHInfo)
  | 0, _ => pure []
  | count + 1, offset => do
    let clause ← parseClause bytes offset
    let rest ← parseClauses bytes count (offset + sizeofClauseFat)
    pure (clause :: rest)

/-- A fat section of the exception table, and no section behind it. -/
def parseSection (bytes : List UInt8) (start : Nat) : Except Failure (List EHInfo × Nat) := do
  let sect ← fetch bytes start 4
  let dataSize := sect / 2 ^ 8
  if sect % 2 ^ 8 ≠ CorILMethod_Sect_EHTable ||| CorILMethod_Sect_FatFormat then .error .COR_E_INVALIDPROGRAM
  else if dataSize < sizeofSectFat ∨ (dataSize - sizeofSectFat) % sizeofClauseFat ≠ 0 then .error .COR_E_INVALIDPROGRAM
  else do
    let clauses ← parseClauses bytes ((dataSize - sizeofSectFat) / sizeofClauseFat) (start + sizeofSectFat)
    pure (clauses, start + dataSize)

/-- The header, the code, and at the next multiple of four the section the header announces. -/
def parseFat (bytes : List UInt8) : Except Failure ParsedBody := do
  let head ← fetch bytes 0 4
  if head % 2 ^ 3 ≠ CorILMethod_FatFormat ∨ head / 2 ^ 12 % 2 ^ 4 ≠ sizeofFat / 4 then .error .COR_E_INVALIDPROGRAM
  else do
    let codeSize ← fetch bytes 4 4
    let localVarSigTok ← fetch bytes 8 4
    if sizeofFat + codeSize > bytes.length then .error .COR_E_INVALIDPROGRAM
    else do
      let body : ParsedBody := {
        Flags := head % 2 ^ 12
        MaxStack := head / 2 ^ 16
        CodeSize := codeSize
        LocalVarSigTok := localVarSigTok
        Code := (bytes.drop sizeofFat).take codeSize
        EH := []
        sectionEnd := none }
      if body.Flags &&& CorILMethod_MoreSects = 0 then pure body
      else do
        let (clauses, sectionEnd) ← parseSection bytes ((sizeofFat + codeSize + 3) / 4 * 4)
        pure { body with EH := clauses, sectionEnd := some sectionEnd }

end Reading

section Words

def wordBytes (words : List Nat) : List UInt8 := words.flatMap (LittleEndian.encode 4)

@[simp] theorem length_wordBytes (words : List Nat) : (wordBytes words).length = 4 * words.length := by
  induction words with
  | nil => rfl
  | cons word rest ih =>
    rw [wordBytes] at ih
    rw [wordBytes, List.flatMap_cons, List.length_append, LittleEndian.length_encode, ih, List.length_cons]
    omega

theorem wordBytes_cons (word : Nat) (rest : List Nat) :
    wordBytes (word :: rest) = LittleEndian.encode 4 word ++ wordBytes rest :=
  List.flatMap_cons ..

theorem Written.append {buffer middle after : Buffer} (first : Written buffer offset bytes middle)
    (second : Written middle (offset + bytes.length) others after) : Written buffer offset (bytes ++ others) after where
  size := second.size.trans first.size
  fits := by
    intro nonempty
    rw [List.length_append]
    by_cases none : others = []
    · subst none
      rw [List.append_nil] at nonempty
      exact first.fits nonempty
    · have room := second.fits none
      rw [first.size] at room
      omega
  content := by
    rw [List.length_append, Buffer.read_append, second.content]
    have kept : after.read offset bytes.length = middle.read offset bytes.length :=
      Buffer.read_congr fun i _ upper => second.elsewhere i (.inl upper)
    rw [kept, first.content]
  elsewhere := by
    intro i outside
    rw [List.length_append] at outside
    rw [second.elsewhere i (by omega), first.elsewhere i (by omega)]

theorem Written.nil (buffer : Buffer) (offset : Nat) : Written buffer offset [] buffer :=
  ⟨rfl, fun nonempty => absurd rfl nonempty, rfl, fun _ _ => rfl⟩

theorem storeWords_of_le {buffer : Buffer} {words : List Nat} (fits : offset + 4 * words.length ≤ buffer.size) :
    ∃ after, storeWords buffer offset words = .ok after ∧ Written buffer offset (wordBytes words) after := by
  induction words generalizing buffer offset with
  | nil => exact ⟨buffer, rfl, .nil ..⟩
  | cons word rest ih =>
    rw [List.length_cons] at fits
    obtain ⟨middle, stored⟩ : ∃ middle, store buffer offset (LittleEndian.encode 4 word) = .ok middle :=
      store_of_le (by rw [LittleEndian.length_encode]; omega)
    have first := store_eq_ok stored
    obtain ⟨after, run, second⟩ : ∃ after, storeWords middle (offset + 4) rest = .ok after ∧
        Written middle (offset + 4) (wordBytes rest) after := ih (by rw [first.size]; omega)
    refine ⟨after, ?_, ?_⟩
    · rw [storeWords, stored, Outcome.ok_bind, run]
    · rw [wordBytes_cons]
      exact first.append (by rwa [LittleEndian.length_encode])

def clauseBytes (clauses : List EHInfo) : List UInt8 := clauses.flatMap fun clause => wordBytes clause.words

theorem length_clauseBytes (clauses : List EHInfo) :
    (clauseBytes clauses).length = sizeofClauseFat * clauses.length := by
  induction clauses with
  | nil => rfl
  | cons clause rest ih =>
    rw [clauseBytes] at ih
    rw [clauseBytes, List.flatMap_cons, List.length_append, length_wordBytes, ih, List.length_cons, EHInfo.words]
    simp only [List.length_cons, List.length_nil, sizeofClauseFat]
    omega

theorem storeClauses_of_le {buffer : Buffer} {clauses : List EHInfo}
    (fits : offset + sizeofClauseFat * clauses.length ≤ buffer.size) :
    ∃ after, storeClauses buffer offset clauses = .ok after ∧ Written buffer offset (clauseBytes clauses) after := by
  induction clauses generalizing buffer offset with
  | nil => exact ⟨buffer, rfl, .nil ..⟩
  | cons clause rest ih =>
    rw [List.length_cons, Nat.mul_add_one] at fits
    have words : clause.words.length = 6 := rfl
    obtain ⟨middle, stored, first⟩ : ∃ middle, storeWords buffer offset clause.words = .ok middle ∧
        Written buffer offset (wordBytes clause.words) middle :=
          storeWords_of_le (by rw [words]; simp only [sizeofClauseFat] at fits; omega)
    have next : offset + (wordBytes clause.words).length = offset + sizeofClauseFat := by rw [length_wordBytes, words]
    obtain ⟨after, run, second⟩ : ∃ after, storeClauses middle (offset + sizeofClauseFat) rest = .ok after ∧
        Written middle (offset + sizeofClauseFat) (clauseBytes rest) after := ih (by rw [first.size]; omega)
    refine ⟨after, ?_, ?_⟩
    · rw [storeClauses, stored, Outcome.ok_bind, run]
    · rw [clauseBytes, List.flatMap_cons]
      rw [← next] at second
      exact first.append second

end Words

section Parsing

theorem stands_of_read {buffer : Buffer} (content : buffer.read offset bytes.length = bytes)
    (inside : offset + bytes.length ≤ buffer.size) : Stands (buffer.read 0 buffer.size) offset bytes := by
  obtain ⟨rest, size⟩ := Nat.exists_eq_add_of_le inside
  refine ⟨buffer.read 0 offset, buffer.read (offset + bytes.length) rest, ?_, Buffer.length_read ..⟩
  rw [size, Buffer.read_append, Buffer.read_append, Nat.zero_add, Nat.zero_add, content]

private theorem fetch_word {bytes : List UInt8} (stands : Stands bytes offset (wordBytes (word :: rest)))
    (small : word < 2 ^ 32) :
    fetch bytes offset 4 = .ok word ∧ Stands bytes (offset + 4) (wordBytes rest) := by
  rw [wordBytes_cons] at stands
  obtain ⟨first, others⟩ := stands_append.mp stands
  rw [LittleEndian.length_encode] at others
  exact ⟨fetch_eq_ok_iff.mpr ⟨by omega, first⟩, others⟩

theorem parseClause_of_stands {bytes : List UInt8} {clause : EHInfo}
    (stands : Stands bytes offset (wordBytes clause.words)) : parseClause bytes offset = .ok clause := by
  obtain ⟨flags, stands⟩ := fetch_word stands clause.Flags.toNat_lt
  obtain ⟨tryOffset, stands⟩ := fetch_word stands clause.TryOffset.toNat_lt
  obtain ⟨tryLength, stands⟩ := fetch_word stands clause.TryLength.toNat_lt
  obtain ⟨handlerOffset, stands⟩ := fetch_word stands clause.HandlerOffset.toNat_lt
  obtain ⟨handlerLength, stands⟩ := fetch_word stands clause.HandlerLength.toNat_lt
  obtain ⟨tokenOrFilter, -⟩ := fetch_word stands clause.ClassTokenOrFilterOffset.toNat_lt
  simp only [Nat.add_assoc, Nat.reduceAdd] at tryOffset tryLength handlerOffset handlerLength tokenOrFilter
  rw [parseClause, flags, Outcome.ok_bind, tryOffset, Outcome.ok_bind, tryLength, Outcome.ok_bind, handlerOffset,
    Outcome.ok_bind, handlerLength, Outcome.ok_bind, tokenOrFilter, Outcome.ok_bind, Outcome.pure_eq]
  simp only [UInt32.ofNat_toNat]

theorem parseClauses_of_stands {bytes : List UInt8} {clauses : List EHInfo}
    (stands : Stands bytes offset (clauseBytes clauses)) : parseClauses bytes clauses.length offset = .ok clauses := by
  induction clauses generalizing offset with
  | nil => rfl
  | cons clause rest ih =>
    rw [clauseBytes, List.flatMap_cons] at stands
    obtain ⟨first, others⟩ := stands_append.mp stands
    have length : (wordBytes clause.words).length = sizeofClauseFat := length_wordBytes _
    rw [length] at others
    rw [List.length_cons, parseClauses, parseClause_of_stands first, Outcome.ok_bind, ih others]
    rfl

/-- The mask clears the two lowest bits. -/
theorem alignedCodeSize_eq (small : offset + 3 < 2 ^ 32) : alignedCodeSize offset = (offset + 3) / 4 * 4 := by
  have mask : 0xFFFFFFFC = (2 ^ 30 - 1) <<< 2 := by decide
  have shifted : (offset + 3) / 4 * 4 = ((offset + 3) >>> 2) <<< 2 := by
    rw [Nat.shiftRight_eq_div_pow, Nat.shiftLeft_eq]
  rw [alignedCodeSize, wrap32_of_lt small, mask, shifted]
  apply Nat.eq_of_testBit_eq
  intro i
  rw [Nat.testBit_and, Nat.testBit_shiftLeft, Nat.testBit_shiftLeft, Nat.testBit_shiftRight,
    Nat.testBit_two_pow_sub_one]
  by_cases low : i < 2
  · simp [show ¬2 ≤ i by omega]
  · by_cases high : i < 32
    · simp [show 2 ≤ i by omega, show i - 2 < 30 by omega, show 2 + (i - 2) = i by omega]
    · have zero : (offset + 3).testBit i = false := Nat.testBit_lt_two_pow
        (Nat.lt_of_lt_of_le small (Nat.pow_le_pow_right (by decide) (by omega)))
      simp [show 2 ≤ i by omega, show 2 + (i - 2) = i by omega, zero]

/-- The exception section of a body, read back. -/
theorem parseSection_of_stands {bytes : List UInt8} {clauses : List EHInfo} (fits : clauses.length ≤ 699050)
    (stands : Stands bytes start (wordBytes [(CorILMethod_Sect_EHTable ||| CorILMethod_Sect_FatFormat) +
      2 ^ 8 * (sizeofSectFat + sizeofClauseFat * clauses.length)] ++ clauseBytes clauses)) :
    parseSection bytes start = .ok (clauses, start + (sizeofSectFat + sizeofClauseFat * clauses.length)) := by
  obtain ⟨first, others⟩ := stands_append.mp stands
  have kind : CorILMethod_Sect_EHTable ||| CorILMethod_Sect_FatFormat = 0x41 := by decide
  simp only [sizeofSectFat, sizeofClauseFat, kind] at first
  obtain ⟨sect, -⟩ := fetch_word first (by omega)
  have low : (0x41 + 2 ^ 8 * (4 + 24 * clauses.length)) % 2 ^ 8 = 0x41 := by omega
  have high : (0x41 + 2 ^ 8 * (4 + 24 * clauses.length)) / 2 ^ 8 = 4 + 24 * clauses.length := by omega
  have count : (4 + 24 * clauses.length - 4) / 24 = clauses.length := by omega
  rw [length_wordBytes, List.length_singleton, Nat.mul_one] at others
  rw [parseSection, sect, Outcome.ok_bind]
  simp only [low, high, kind, sizeofSectFat, sizeofClauseFat, count]
  rw [if_neg (by simp), if_neg (by omega), parseClauses_of_stands others, Outcome.ok_bind, Outcome.pure_eq]

end Parsing

section Container

variable {platform : Platform} {original : MethodBody} {s : ILRewriter} {fat : FatBody}

/-- What a parsed body says against what was exported: `original` gives the header fields, `s` the
clauses with their current nodes. -/
structure ReadsBack (original : MethodBody) (s : ILRewriter) (code : List UInt8) (totalSize : Nat)
    (parsed : ParsedBody) : Prop where
  codeSize : parsed.CodeSize = code.length
  code : parsed.Code = code
  localVarSig : parsed.LocalVarSigTok = original.LocalVarSigTok
  initLocals : parsed.Flags &&& CorILMethod_InitLocals ≠ 0 ↔ original.Flags &&& CorILMethod_InitLocals ≠ 0
  moreSects : parsed.Flags &&& CorILMethod_MoreSects ≠ 0 ↔ s.m_pEH ≠ []
  clauses : parsed.EH = s.m_pEH.map (exportedClause s.m_offset s.m_pNext)
  sectionEnd : parsed.sectionEnd = if s.m_pEH = [] then none else some totalSize

/-- The memory Export asks for. -/
def containerSize (codeSize m_nEH : Nat) : Nat :=
  sizeofFat + (codeSize + 3) / 4 * 4 + if m_nEH ≠ 0 then sizeofSectFat + sizeofClauseFat * m_nEH else 0

theorem exportFlags_cases (flags m_nEH : Nat) :
    let kept := ((flags &&& CorILMethod_InitLocals) ||| (if m_nEH ≠ 0 then CorILMethod_MoreSects else 0) |||
      CorILMethod_FatFormat) % 2 ^ 12
    kept < 2 ^ 12 ∧ kept % 2 ^ 3 = CorILMethod_FatFormat ∧
      (kept &&& CorILMethod_InitLocals ≠ 0 ↔ flags &&& CorILMethod_InitLocals ≠ 0) ∧
      (kept &&& CorILMethod_MoreSects ≠ 0 ↔ m_nEH ≠ 0) := by
  have bit : flags &&& CorILMethod_InitLocals = 0 ∨ flags &&& CorILMethod_InitLocals = CorILMethod_InitLocals := by
    have masked : flags &&& 2 ^ 4 = (flags.testBit 4).toNat * 2 ^ 4 := Nat.and_two_pow flags 4
    rw [show CorILMethod_InitLocals = 2 ^ 4 by decide, masked]
    cases flags.testBit 4 <;> decide
  intro kept
  by_cases none : m_nEH = 0
  · subst none
    rcases bit with bit | bit <;> simp only [kept, bit] <;> decide
  · have some : (m_nEH ≠ 0) = True := eq_true none
    rcases bit with bit | bit <;> simp only [kept, bit, some] <;> decide

/-- A header behind which the code and, if there is one, the section stand. -/
theorem parseFat_of_stands {bytes : List UInt8} (flags : fat.Flags < 2 ^ 12)
    (format : fat.Flags % 2 ^ 3 = CorILMethod_FatFormat) (size : fat.Size = 3) (maxStack : fat.MaxStack < 2 ^ 16)
    (codeSize : fat.CodeSize = fat.Code.length) (small : fat.CodeSize < 2 ^ 32) (token : fat.LocalVarSigTok < 2 ^ 32)
    (stands : Stands bytes 0 (wordBytes [fat.Flags + 2 ^ 12 * fat.Size + 2 ^ 16 * fat.MaxStack, fat.CodeSize,
      fat.LocalVarSigTok] ++ fat.Code)) :
    parseFat bytes =
      let body : ParsedBody := ⟨fat.Flags, fat.MaxStack, fat.CodeSize, fat.LocalVarSigTok, fat.Code, [], none⟩
      if fat.Flags &&& CorILMethod_MoreSects = 0 then .ok body
      else (parseSection bytes ((sizeofFat + fat.CodeSize + 3) / 4 * 4)).map fun found =>
        { body with EH := found.1, sectionEnd := some found.2 } := by
  obtain ⟨words, code⟩ := stands_append.mp stands
  obtain ⟨head, words⟩ := fetch_word words (by omega)
  obtain ⟨second, words⟩ := fetch_word words small
  obtain ⟨third, -⟩ := fetch_word words token
  simp only [Nat.zero_add, Nat.reduceAdd] at second third
  have bound := code.bound
  obtain ⟨front, behind, rfl, length⟩ := code
  have twelve : front.length = sizeofFat := by rw [length, length_wordBytes]; rfl
  have slice : ((front ++ fat.Code ++ behind).drop sizeofFat).take fat.CodeSize = fat.Code := by
    rw [← twelve, List.append_assoc, List.drop_left, codeSize, List.take_left]
  have low : (fat.Flags + 2 ^ 12 * fat.Size + 2 ^ 16 * fat.MaxStack) % 2 ^ 12 = fat.Flags := by omega
  have form : (fat.Flags + 2 ^ 12 * fat.Size + 2 ^ 16 * fat.MaxStack) % 2 ^ 3 = CorILMethod_FatFormat := by
    rw [← format]
    omega
  have dwords : (fat.Flags + 2 ^ 12 * fat.Size + 2 ^ 16 * fat.MaxStack) / 2 ^ 12 % 2 ^ 4 = sizeofFat / 4 := by
    simp only [sizeofFat]
    omega
  have high : (fat.Flags + 2 ^ 12 * fat.Size + 2 ^ 16 * fat.MaxStack) / 2 ^ 16 = fat.MaxStack := by omega
  rw [← length, twelve] at bound
  rw [parseFat, head, Outcome.ok_bind, if_neg (not_or.mpr ⟨not_not.mpr form, not_not.mpr dwords⟩), second,
    Outcome.ok_bind, third, Outcome.ok_bind,
    if_neg (by rw [codeSize]; omega)]
  simp only [low, high, slice]
  split
  · rfl
  · cases parseSection (front ++ fat.Code ++ behind) ((sizeofFat + fat.CodeSize + 3) / 4 * 4) <;> rfl

/-- The writes of a body stay inside the memory it asks for, and leave its parts behind. -/
theorem WriteBody_succeeds (platform : Platform) (codeSize : fat.CodeSize = fat.Code.length)
    (small : fat.Code.length + sizeofClauseFat * fat.EH.length < 2 ^ 31) :
    ∃ pBody, WriteBody platform fat = .ok pBody ∧ pBody.size = containerSize fat.Code.length fat.EH.length ∧
      Stands (pBody.read 0 pBody.size) 0 (wordBytes [fat.Flags + 2 ^ 12 * fat.Size + 2 ^ 16 * fat.MaxStack,
        fat.CodeSize, fat.LocalVarSigTok] ++ fat.Code) ∧
      (fat.EH ≠ [] → Stands (pBody.read 0 pBody.size) (sizeofFat + (fat.Code.length + 3) / 4 * 4)
        (wordBytes [fat.Kind + 2 ^ 8 * fat.DataSize] ++ clauseBytes fat.EH)) := by
  have aligned : alignedCodeSize fat.CodeSize = (fat.Code.length + 3) / 4 * 4 := by
    rw [codeSize, alignedCodeSize_eq (by omega)]
  have total : totalBodySize fat.CodeSize fat.EH.length = containerSize fat.Code.length fat.EH.length := by
    rw [totalBodySize, containerSize, aligned]
    apply wrap32_of_lt
    simp only [sizeofFat, sizeofSectFat, sizeofClauseFat] at small ⊢
    split <;> omega
  let memory : Buffer := ⟨containerSize fat.Code.length fat.EH.length, platform.uninitialised⟩
  let header := [fat.Flags + 2 ^ 12 * fat.Size + 2 ^ 16 * fat.MaxStack, fat.CodeSize, fat.LocalVarSigTok]
  have room : sizeofFat + fat.Code.length ≤ memory.size := by
    simp only [memory, containerSize]
    omega
  obtain ⟨headed, head, first⟩ : ∃ after, storeWords memory 0 header = .ok after ∧
      Written memory 0 (wordBytes header) after := storeWords_of_le (by
    simp only [header, List.length_cons, List.length_nil]
    simp only [sizeofFat] at room
    omega)
  obtain ⟨coded, code⟩ : ∃ after, store headed sizeofFat fat.Code = .ok after :=
    store_of_le (by rw [first.size]; exact room)
  have front : Written memory 0 (wordBytes header ++ fat.Code) coded :=
    first.append (by rw [length_wordBytes]; exact store_eq_ok code)
  have frontLength : (wordBytes header ++ fat.Code).length = sizeofFat + fat.Code.length := by
    rw [List.length_append, length_wordBytes]
    rfl
  rw [WriteBody]
  simp only [aligned, total]
  rw [show storeWords _ 0 _ = .ok headed from head, Outcome.ok_bind, code, Outcome.ok_bind]
  by_cases clauses : fat.EH.length = 0
  · refine ⟨coded, if_neg (not_not.mpr clauses), front.size, ?_, fun some => ?_⟩
    · exact stands_of_read front.content (by rw [frontLength, front.size, Nat.zero_add]; exact room)
    · exact absurd (List.length_eq_zero_iff.mp clauses) some
  · have behind : sizeofFat + (fat.Code.length + 3) / 4 * 4 + (sizeofSectFat + sizeofClauseFat * fat.EH.length) =
        memory.size := by
      simp only [memory, containerSize]
      rw [if_pos clauses]
    obtain ⟨kinded, kind, second⟩ : ∃ after,
        storeWords coded (sizeofFat + (fat.Code.length + 3) / 4 * 4) [fat.Kind + 2 ^ 8 * fat.DataSize] = .ok after ∧
        Written coded (sizeofFat + (fat.Code.length + 3) / 4 * 4) (wordBytes [fat.Kind + 2 ^ 8 * fat.DataSize]) after :=
      storeWords_of_le (by
        rw [front.size, ← behind, List.length_singleton]
        simp only [sizeofSectFat]
        omega)
    obtain ⟨pBody, table, third⟩ : ∃ after,
        storeClauses kinded (sizeofFat + (fat.Code.length + 3) / 4 * 4 + sizeofSectFat) fat.EH = .ok after ∧
        Written kinded (sizeofFat + (fat.Code.length + 3) / 4 * 4 + sizeofSectFat) (clauseBytes fat.EH) after :=
      storeClauses_of_le (by rw [second.size, front.size, ← behind]; omega)
    have back : Written coded (sizeofFat + (fat.Code.length + 3) / 4 * 4)
        (wordBytes [fat.Kind + 2 ^ 8 * fat.DataSize] ++ clauseBytes fat.EH) pBody :=
      second.append (by rw [length_wordBytes]; exact third)
    have backLength : (wordBytes [fat.Kind + 2 ^ 8 * fat.DataSize] ++ clauseBytes fat.EH).length =
        sizeofSectFat + sizeofClauseFat * fat.EH.length := by
      rw [List.length_append, length_wordBytes, length_clauseBytes]
      rfl
    have size : pBody.size = memory.size := back.size.trans front.size
    refine ⟨pBody, ?_, size, ?_, fun _ => ?_⟩
    · rw [if_pos clauses, kind, Outcome.ok_bind, table]
    · refine stands_of_read ?_ (by rw [frontLength, size, Nat.zero_add]; exact room)
      refine Eq.trans (Buffer.read_congr fun i _ upper => back.elsewhere i (.inl ?_)) front.content
      rw [frontLength, Nat.zero_add] at upper
      omega
    · exact stands_of_read back.content (by rw [backLength, size, ← behind])

/-- The fields Export fills in. -/
theorem ExportBody_fields {code : List UInt8} (delivered : s.m_pEH.length ≤ 699050)
    (exported : s.ExportBody code = .ok fat) :
    fat.Code = code ∧ fat.CodeSize = code.length ∧ fat.Size = 3 ∧ fat.MaxStack < 2 ^ 16 ∧
      fat.LocalVarSigTok = s.m_tkLocalVarSig ∧
      fat.Flags = (s.m_flags ||| (if s.m_pEH.length ≠ 0 then CorILMethod_MoreSects else 0) |||
        CorILMethod_FatFormat) % 2 ^ 12 ∧
      fat.EH = s.m_pEH.map (exportedClause s.m_offset s.m_pNext) ∧
      (s.m_pEH.length ≠ 0 → fat.Kind = CorILMethod_Sect_EHTable ||| CorILMethod_Sect_FatFormat ∧
        fat.DataSize = sizeofSectFat + sizeofClauseFat * s.m_pEH.length) := by
  obtain ⟨clauses, mapped, done⟩ := Outcome.bind_eq_ok_iff.mp exported
  cases done
  refine ⟨rfl, rfl, rfl, Nat.mod_lt _ (by decide), rfl, rfl, (mapM_ExportClause.mp mapped).2, fun some => ?_⟩
  refine ⟨if_pos some, (if_pos some).trans ?_⟩
  simp only [sizeofSectFat, sizeofClauseFat]
  rw [wrap32_of_lt (by omega), Nat.mod_eq_of_lt (by omega)]

/-- The exported container decodes to what was encoded. -/
theorem container_decodes {code : List UInt8} (flags : s.m_flags = (ImportHeader original).m_flags)
    (localVarSig : s.m_tkLocalVarSig = (ImportHeader original).m_tkLocalVarSig)
    (token : original.LocalVarSigTok < 2 ^ 32) (delivered : s.m_pEH.length ≤ 699050)
    (small : code.length + sizeofClauseFat * s.m_pEH.length < 2 ^ 31) (exported : s.ExportBody code = .ok fat) :
    ∃ pBody parsed, WriteBody platform fat = .ok pBody ∧
      pBody.size = containerSize code.length s.m_pEH.length ∧
      parseFat (pBody.read 0 pBody.size) = .ok parsed ∧ ReadsBack original s code pBody.size parsed := by
  obtain ⟨rfl, codeSize, size, maxStack, tok, flagBits, converted, sect⟩ := ExportBody_fields delivered exported
  have length : s.m_pEH.length = fat.EH.length := by rw [converted, List.length_map]
  have kept : s.m_flags = original.Flags &&& CorILMethod_InitLocals := flags
  have sig : fat.LocalVarSigTok = original.LocalVarSigTok := tok.trans localVarSig
  obtain ⟨flagsSmall, format, initLocals, moreSects⟩ := exportFlags_cases original.Flags s.m_pEH.length
  rw [← kept, ← flagBits] at flagsSmall format initLocals moreSects
  have some : s.m_pEH.length ≠ 0 ↔ s.m_pEH ≠ [] := not_congr List.length_eq_zero_iff
  obtain ⟨pBody, run, total, front, back⟩ := WriteBody_succeeds platform codeSize (by rw [← length]; exact small)
  have parsed := parseFat_of_stands flagsSmall format size maxStack codeSize (by rw [codeSize]; omega)
    (by rw [sig]; exact token) front
  rw [← length] at total
  refine ⟨pBody, ?_⟩
  by_cases none : s.m_pEH = []
  · have noSects : fat.Flags &&& CorILMethod_MoreSects = 0 := by
      by_contra sects
      exact some.mp (moreSects.mp sects) none
    rw [noSects] at parsed
    refine ⟨_, run, total, parsed, codeSize, rfl, sig, ?_, moreSects.trans some, ?_, ?_⟩
    · rw [kept] at initLocals
      exact initLocals
    · rw [none]
      rfl
    · rw [if_pos none]
  · have count := some.mpr none
    obtain ⟨kind, dataSize⟩ := sect count
    have present : fat.EH ≠ [] := by
      intro empty
      rw [empty] at length
      exact count length
    have behind := back present
    rw [kind, dataSize, length] at behind
    have table := parseSection_of_stands (by rw [← length]; exact delivered) behind
    have start : (sizeofFat + fat.CodeSize + 3) / 4 * 4 = sizeofFat + (fat.Code.length + 3) / 4 * 4 := by
      rw [codeSize]
      simp only [sizeofFat]
      omega
    rw [start, table, if_neg (moreSects.mpr count)] at parsed
    refine ⟨_, run, total, parsed, codeSize, rfl, sig, ?_, moreSects.trans some, converted, ?_⟩
    · rw [kept] at initLocals
      exact initLocals
    · rw [if_neg none, total, containerSize, if_pos count, ← length]

/-- A run of `InjectEnterExitHooks` hands on the header fields Import has read, and as many clauses. -/
theorem injected_body {instrs : List RawInstr} {hooks : Hooks} {result : Exported}
    (valid : ∀ instr ∈ instrs, instr.Valid platform) (code : original.Code = listingBytes platform instrs)
    (run : InjectEnterExitHooks platform original hooks = .ok result) :
    result.rewriter.m_flags = (ImportHeader original).m_flags ∧
      result.rewriter.m_tkLocalVarSig = (ImportHeader original).m_tkLocalVarSig ∧
      result.rewriter.m_pEH.length = original.EH.length ∧
      result.body.Code.length ≤ 10 * (injectedNodes platform hooks instrs).length ∧
      result.rewriter.ExportBody result.body.Code = .ok result.body := by
  obtain ⟨s, injected, exported⟩ := InjectEnterExitHooks_eq_ok valid code run
  obtain ⟨nodes', assembled⟩ := Export_eq_ok injected.holds (injected.closed exported) exported
  have kept := assembled.laid.rewriter
  have length : result.body.Code.length ≤ 10 * (injectedNodes platform hooks instrs).length := by
    have bound := @totalSize_le platform nodes'
    rw [assembled.laid.code, length_encodeFrom]
    rwa [← assembled.widening.length_eq, List.length_map] at bound
  obtain ⟨⟨rewriter, buffer, offset, passes⟩, -, rest⟩ := Outcome.bind_eq_ok_iff.mp exported
  obtain ⟨fat, body, rest⟩ := Outcome.bind_eq_ok_iff.mp rest
  cases rest
  refine ⟨?_, ?_, ?_, length, ?_⟩
  · rw [kept]
    exact injected.flags
  · rw [kept]
    exact injected.localVarSig
  · rw [kept]
    exact (congrArg List.length injected.clauses).trans (List.length_map _)
  · obtain ⟨clauses, -, done⟩ := Outcome.bind_eq_ok_iff.mp body
    have same : fat.Code = buffer.read 0 offset := by
      cases done
      rfl
    dsimp only
    rw [same]
    exact body

/-- A body with hooks is written where the code of the body can be rewritten and what is around it written. -/
theorem injected_written_iff {hooks : Hooks} {pBody : Buffer} :
    (∃ result, InjectEnterExitHooks platform original hooks = .ok result ∧ WriteBody platform result.body = .ok pBody) ↔
      ∃ rewriter code, Rewrite platform original hooks = .ok (rewriter, code) ∧
        rewriter.WrittenBody platform code = .ok pBody := by
  constructor
  · rintro ⟨⟨rewriter, fat, passes⟩, run, written⟩
    obtain ⟨rewritten, exported⟩ := InjectEnterExitHooks_iff.mp ⟨passes, run⟩
    exact ⟨rewriter, fat.Code, rewritten, Outcome.bind_eq_ok_iff.mpr ⟨fat, exported, written⟩⟩
  · rintro ⟨rewriter, code, rewritten, finished⟩
    obtain ⟨fat, exported, written⟩ := Outcome.bind_eq_ok_iff.mp finished
    have same : fat.Code = code := by
      obtain ⟨clauses, -, done⟩ := Outcome.bind_eq_ok_iff.mp exported
      cases done
      rfl
    subst same
    obtain ⟨passes, run⟩ := InjectEnterExitHooks_iff.mpr ⟨rewritten, exported⟩
    exact ⟨_, run, written⟩

theorem container_decodes_leftTry : ∃ result pBody parsed,
    InjectEnterExitHooks Ecma335.platform leftTry leftTryHooks = .ok result ∧
      WriteBody Ecma335.platform result.body = .ok pBody ∧
      pBody.size = containerSize result.body.Code.length result.rewriter.m_pEH.length ∧
      parseFat (pBody.read 0 pBody.size) = .ok parsed ∧
      ReadsBack leftTry result.rewriter result.body.Code pBody.size parsed := by
  obtain ⟨result, run⟩ := leftTry_injected
  obtain ⟨flags, localVarSig, count, length, body⟩ := injected_body leftTry_valid leftTry_code run
  have clauses : result.rewriter.m_pEH.length = 1 := count
  have nodes : 10 * (injectedNodes Ecma335.platform leftTryHooks leftTryInstrs).length < 2 ^ 30 := by decide
  obtain ⟨pBody, parsed, decoded⟩ := container_decodes flags localVarSig (by decide) (by omega)
    (by rw [clauses]; simp only [sizeofClauseFat]; omega) body
  exact ⟨result, pBody, parsed, run, decoded⟩

end Container

end ClrProfiling
