import ClrProfiling.IL.Meaning

/-! Injection bodies are bodies again: what `InjectEnterExitHooks` exports is well formed, so that
it can be instrumented once more, and the events of many such runs nest. -/

namespace ClrProfiling

open LinkedRing Word ILRewriter Machine

section Listings

variable {platform : Platform} {starts : Ptr → Nat}

/-- Code is a sequence of instructions in one way. -/
theorem listing_unique {instrs others : List RawInstr} (valid : ∀ instr ∈ instrs, instr.Valid platform)
    (valid' : ∀ instr ∈ others, instr.Valid platform)
    (same : listingBytes platform instrs = listingBytes platform others) :
    instrs = others := by
  induction instrs generalizing others with
  | nil => exact (listingBytes_eq_nil same.symm).symm
  | cons instr rest ih =>
    cases others with
    | nil => exact listingBytes_eq_nil same
    | cons other others =>
      obtain ⟨here, later⟩ := List.forall_mem_cons.mp valid
      obtain ⟨here', later'⟩ := List.forall_mem_cons.mp valid'
      have first : instrAt platform (listingBytes platform (instr :: rest))
          (listingBytes platform []).length = .ok instr :=
        instrAt_listing here rfl
      have second : instrAt platform (listingBytes platform (instr :: rest))
          (listingBytes platform []).length = .ok other :=
        instrAt_listing here' same
      obtain rfl := Except.ok.inj (first.symm.trans second)
      rw [listingBytes_cons, listingBytes_cons] at same
      rw [ih later later' (List.append_cancel_left same)]

private theorem rawBlocks_split {blocks : List Block}
    (split : rawBlocks platform starts place blocks = before ++ instr :: after) :
    ∃ front block back, blocks = front ++ block :: back ∧ before = rawBlocks platform starts place front ∧
      instr = block.raw platform starts (place + totalSize platform (blockNodes front)) := by
  induction blocks generalizing place before with
  | nil => exact absurd split (by simp [rawBlocks])
  | cons block rest ih =>
    rw [rawBlocks] at split
    cases before with
    | nil =>
      obtain ⟨rfl, -⟩ := List.cons_eq_cons.mp split
      exact ⟨[], block, rest, rfl, rfl, rfl⟩
    | cons first before =>
      obtain ⟨rfl, later⟩ := List.cons_eq_cons.mp split
      obtain ⟨front, found, back, rfl, rfl, rfl⟩ := ih later
      refine ⟨block :: front, found, back, rfl, rfl, ?_⟩
      rw [blockNodes_cons, totalSize_append, Nat.add_assoc]

theorem nodesBehind_wellBlocked (before : List RawInstr) {after : List RawInstr}
    (valid : ∀ instr ∈ after, instr.Valid platform) : WellBlocked platform (nodesBehind platform before after) := by
  induction after generalizing before with
  | nil => exact ⟨[], by simp, rfl⟩
  | cons instr rest ih =>
    obtain ⟨first, others⟩ := List.forall_mem_cons.mp valid
    obtain ⟨block, formed, cut, -⟩ := nodesBehind_block before rest first
    rw [cut]
    exact WellBlocked.append ⟨[block], by simpa using formed, by simp⟩ (ih _ others)

end Listings

section Exported

variable {platform : Platform} {body : MethodBody} {hooks : Hooks} {instrs : List RawInstr} {result : Exported}
  {s : ILRewriter} {nodes' : List Instr}

/-- The exported code as a sequence of instructions, one for each block of the list. -/
structure Listed (platform : Platform) (nodes' : List Instr) (result : Exported) (blocks : List Block)
    (instrs' : List RawInstr) : Prop where
  formed : ∀ block ∈ blocks, block.WellFormed platform
  nodes : nodes' = blockNodes blocks
  listing : instrs' = rawBlocks platform (startOf platform nodes') 0 blocks
  code : result.body.Code = listingBytes platform instrs'

theorem Listed.valid (listed : Listed platform nodes' result blocks instrs') :
    ∀ instr ∈ instrs', instr.Valid platform := by
  rw [listed.listing]
  exact rawBlocks_valid listed.formed 0

theorem Injection.listed (run : Injection platform body hooks instrs s nodes' result) :
    ∃ blocks instrs', Listed platform nodes' result blocks instrs' := by
  obtain ⟨blocks, formed, rfl⟩ := run.injected.blocked.widened run.assembled.widening
  exact ⟨blocks, _, formed, rfl, rfl, run.assembled.laid.code.trans (encode_blocks formed 0 0)⟩

private theorem Listed.boundary (listed : Listed platform (front ++ back) result blocks instrs')
    (laid : result.body.Code = encodeFrom platform (startOf platform (front ++ back)) 0 0 (front ++ back))
    (early : WellBlocked platform front) (late : WellBlocked platform back) :
    Boundary platform instrs' (totalSize platform front) := by
  obtain ⟨first, formed, rfl⟩ := early
  obtain ⟨second, formed', rfl⟩ := late
  have both : ∀ block ∈ first ++ second, block.WellFormed platform := List.forall_mem_append.mpr ⟨formed, formed'⟩
  have code := laid.trans (blockNodes_append first second ▸ encode_blocks both 0 0)
  have same := listing_unique listed.valid (rawBlocks_valid both 0) (listed.code.symm.trans code)
  rw [rawBlocks_append] at same
  exact ⟨_, _, same, (rawBlocks_size formed 0).symm⟩

/-- Boundaries have gone to boundaries. -/
theorem Injection.moved_boundary (run : Injection platform body hooks instrs s nodes' result)
    (listed : Listed platform nodes' result blocks instrs') (boundary : Boundary platform instrs position) :
    Boundary platform instrs' (movedTo platform instrs result position) := by
  obtain ⟨before, after, split, rfl⟩ := boundary
  obtain ⟨front, brk, whole⟩ := injectedNodes_cut platform hooks before after
  have assembled := run.assembled
  have blocked := run.injected.blocked
  rw [split, whole, List.map_append] at assembled blocked
  have expanded := (exitsFrom_expanded hooks brk (nodesBehind platform before after)).wellBlocked
    (nodesBehind_wellBlocked before fun instr member => run.valid instr (by simp [split, member]))
  obtain ⟨front', back', rfl, early, late, place⟩ := assembled.cut
  have parts := blocked.split expanded.head
  rw [movedTo_exits platform result hooks brk split] at place
  rw [place]
  exact listed.boundary assembled.laid.code (parts.1.widened early) (parts.2.widened late)

/-- The instruction at a position of the exported code, and its nodes in the list. -/
private theorem Injection.block_of_split (run : Injection platform body hooks instrs s nodes' result)
    (listed : Listed platform nodes' result blocks instrs') (split : instrs' = before ++ instr :: after) :
    ∃ (front : List Block) (block : Block) (back : List Block), block.WellFormed platform ∧
      nodes' = blockNodes front ++ (block.nodes ++ blockNodes back) ∧
      (listingBytes platform before).length = totalSize platform (blockNodes front) ∧
      instr.instruction platform = block.head.instruction platform ∧
      instr.targets platform (listingBytes platform before).length =
        (branchTargets platform block.nodes).map (startOf platform nodes') := by
  rw [listed.listing] at split
  obtain ⟨front, block, back, rfl, rfl, rfl⟩ := rawBlocks_split split
  obtain ⟨early, others⟩ := List.forall_mem_append.mp listed.formed
  obtain ⟨formed, late⟩ := List.forall_mem_cons.mp others
  have nodes : nodes' = blockNodes front ++ (block.nodes ++ blockNodes back) := by rw [listed.nodes]; simp
  have laid := run.assembled.laid
  rw [nodes] at laid
  have near := everyAt_append.mp (everyAt_append.mp laid.near).2
  rw [Nat.zero_add] at near
  obtain ⟨found, read, -, instruction, targets⟩ := instrAt_encoded (blockNodes back) ⟨front, early, rfl⟩ formed
    (fun node _ => nodes ▸ run.assembled.room node.operand) near.1
  have stands : instrAt platform result.body.Code
      (listingBytes platform (rawBlocks platform (startOf platform nodes') 0 front)).length =
      .ok (block.raw platform (startOf platform nodes') (0 + totalSize platform (blockNodes front))) :=
    instrAt_listing (block.raw_valid formed _) (by rw [listed.code, listed.listing, split])
  rw [rawBlocks_size early] at stands ⊢
  rw [laid.code, read] at stands
  obtain rfl := Except.ok.inj stands
  exact ⟨front, block, back, formed, nodes, rfl, instruction, nodes ▸ targets⟩

/-- Every branch of the exported code leads to a boundary. -/
theorem Injection.wellTargeted (run : Injection platform body hooks instrs s nodes' result)
    (listed : Listed platform nodes' result blocks instrs') : WellTargeted platform instrs' := by
  intro before instr after split target member
  obtain ⟨front, block, back, -, nodes, -, -, targets⟩ := run.block_of_split listed split
  rw [targets] at member
  obtain ⟨p, inBlock, rfl⟩ := List.mem_map.mp member
  obtain ⟨node', listedNode, rfl⟩ := List.mem_map.mp inBlock
  obtain ⟨inside, branch'⟩ := List.mem_filter.mp listedNode
  have exported : node' ∈ nodes' := by simp [nodes, inside]
  obtain ⟨node, source, widening⟩ := widened_source run.assembled.widening exported
  have branch : node.isBranch platform := (isBranch_widened widening.2.2).1.mp (by simpa using branch')
  rw [widening.2.1]
  have found : ∀ node ∈ importedNodes platform instrs, node.isBranch platform →
      ∃ position, node.operand = startNode platform instrs position :=
    (importedNodes_targets fun q => ∃ position, q = startNode platform instrs position).mpr
      fun _ _ _ _ position _ => ⟨position, rfl⟩
  obtain ⟨position, looked⟩ := found node (injected_branch source branch) branch
  have inList := run.closed node source branch
  rw [looked] at inList
  have place := run.assembled.laid.starts (startNode platform instrs position)
    (by rwa [widened_ptrs run.assembled.widening])
  rw [looked, ← place]
  exact run.moved_boundary listed (run.boundary inList)

/-- Every RET of the exported code is one of the list. -/
private theorem Injection.ret_listed (run : Injection platform body hooks instrs s nodes' result)
    (listed : Listed platform nodes' result blocks instrs')
    (split : instrs' = before ++ .plain CEE_RET operand :: after) :
    ∃ entry ∈ injectedNodes platform hooks instrs, entry.node.opcode = CEE_RET ∧
      result.rewriter.m_offset entry.node.ptr = (listingBytes platform before).length := by
  obtain ⟨front, block, back, formed, nodes, place, instruction, -⟩ := run.block_of_split listed split
  have returned : returns ((RawInstr.plain CEE_RET operand).instruction platform) = true := by
    have narrow := (listed.valid (.plain CEE_RET operand) (by simp [split])).2.2
    rw [operandWidth, platform.flags_CEE_RET] at narrow
    obtain rfl := Nat.lt_one_iff.mp narrow
    rw [RawInstr.instruction, if_neg (by rw [platform.flags_CEE_RET]; decide)]
    rfl
  obtain ⟨arguments, head, -⟩ := block.tail_switchArg formed
  have exported : block.head ∈ nodes' := by simp [nodes, head]
  obtain ⟨node, source, widening⟩ := widened_source run.assembled.widening exported
  obtain ⟨entry, inside, rfl⟩ := List.mem_map.mp source
  refine ⟨entry, inside, ?_, ?_⟩
  · have ends : returns (entry.node.instruction platform) = true := by
      rw [← widening.instruction_eq, ← instruction, returned]
    exact returns_iff.mp ends
  · have nodup := run.assembled.laid.holds.ring.nodup
    have member : entry.node.ptr ∈ nodes'.map Instr.ptr := by
      rw [widened_ptrs run.assembled.widening]
      exact List.mem_map_of_mem source
    rw [run.assembled.laid.starts _ (List.mem_cons_of_mem _ member), place]
    rw [nodes] at nodup ⊢
    have start := startOf_cut platform nodup
    rw [head] at start ⊢
    rw [← widening.1]
    exact start

private theorem injected_sound (listed : entry ∈ injectedNodes platform hooks instrs) :
    entry.Sound (importedNodes platform instrs) := by
  obtain ⟨enter, exits, whole, opens, expanded⟩ := expanded_injected platform hooks instrs
  rw [whole] at listed
  rcases List.mem_append.mp listed with inEnter | inExits
  · obtain ⟨node, inside, rfl⟩ := List.mem_map.mp inEnter
    exact opens node inside
  · exact expanded.sound entry inExits

private theorem clause_source {relation : EHInfo → EHInfo → Prop} {EH EH' : List EHInfo}
    (related : List.Forall₂ relation EH EH') (member : exported ∈ EH') : ∃ ehInfo ∈ EH, relation ehInfo exported := by
  induction related with
  | nil => cases member
  | cons first _ ih =>
    rcases List.mem_cons.mp member with rfl | later
    · exact ⟨_, List.mem_cons_self .., first⟩
    · obtain ⟨ehInfo, inside, holds⟩ := ih later
      exact ⟨ehInfo, List.mem_cons_of_mem _ inside, holds⟩

private theorem Injection.range_boundary (run : Injection platform body hooks instrs s nodes' result)
    (wellFormed : WellFormedRegions platform body instrs) (listed : Listed platform nodes' result blocks instrs')
    (member : ehInfo ∈ body.EH) (moved : ClauseMoved platform hooks instrs result ehInfo exported) (region : Region) :
    Boundary platform instrs' (exported.range region).1 ∧ Boundary platform instrs' (exported.range region).2 := by
  by_cases present : region = .filter → ehInfo.isFilter
  · rw [moved.ranges region present]
    exact ⟨run.moved_boundary listed (wellFormed.begins ehInfo member region),
      run.moved_boundary listed (wellFormed.ends ehInfo member region)⟩
  · obtain ⟨rfl, plain⟩ : region = .filter ∧ ¬ehInfo.isFilter := by simpa using present
    rw [EHInfo.range, if_neg (mt (isFilter_of_flags moved.kept.flags).mp plain)]
    exact ⟨⟨[], instrs', rfl, rfl⟩, ⟨[], instrs', rfl, rfl⟩⟩

private theorem Injection.handler_positive (wellFormed : WellFormedRegions platform body instrs)
    (member : ehInfo ∈ body.EH)
    (moved : ClauseMoved platform hooks instrs result ehInfo exported) : 0 < exported.HandlerLength.toNat := by
  have positive := wellFormed.handlers ehInfo member
  obtain ⟨before, after, split, first⟩ := wellFormed.begins ehInfo member .handler
  have last := (wellFormed.ends ehInfo member .handler).le
  cases after with
  | nil =>
    rw [List.append_nil] at split
    rw [← split] at first
    simp only [EHInfo.range] at first last
    omega
  | cons instr rest =>
    have covered : ehInfo.covers .handler (listingBytes platform before).length := by
      rw [EHInfo.covers, ← first]
      simp only [EHInfo.range]
      omega
    have still := (moved.kept.instructions .handler before instr rest split).mpr covered
    simp only [EHInfo.covers, EHInfo.range] at still
    omega

private theorem Listed.ret (listed : Listed platform nodes' result blocks instrs') (member : node ∈ nodes')
    (ret : node.opcode = CEE_RET) : ∃ operand, .plain CEE_RET operand ∈ instrs' := by
  rw [listed.nodes] at member
  obtain ⟨block, inBlocks, inBlock⟩ := List.mem_flatMap.mp member
  obtain ⟨front, back, split⟩ := List.append_of_mem inBlocks
  have formed := listed.formed block inBlocks
  have inListing : block.raw platform (startOf platform nodes')
      (0 + totalSize platform (blockNodes front)) ∈ instrs' := by
    rw [listed.listing, split, rawBlocks_append]
    simp [rawBlocks]
  cases block with
  | plain other =>
    obtain rfl := List.mem_singleton.mp inBlock
    rw [Block.raw, ret] at inListing
    exact ⟨_, inListing⟩
  | switch head arguments =>
    rcases List.mem_cons.mp inBlock with rfl | inside
    · exact absurd (formed.1.symm.trans ret) (by decide)
    · exact absurd (ret.symm.trans (formed.2.2 node inside)) (platform.importable_oneByte (by decide)).ne_switchArg

/-- A body with a RET is exported with one. -/
theorem Injection.keeps_ret (run : Injection platform body hooks instrs s nodes' result)
    (listed : Listed platform nodes' result blocks instrs') (ret : .plain CEE_RET operand ∈ instrs) :
    ∃ operand', .plain CEE_RET operand' ∈ instrs' := by
  obtain ⟨before, after, split⟩ := List.append_of_mem ret
  obtain ⟨front, brk, whole⟩ := injectedNodes_cut platform hooks before (.plain CEE_RET operand :: after)
  have head : (resolved platform (startNode platform (before ++ .plain CEE_RET operand :: after))
      ⟨m_IL + 1 + (before.map RawInstr.nodes).sum, CEE_RET,
        storedOperand platform (listingBytes platform before).length CEE_RET operand⟩).opcode = CEE_RET :=
    resolved_opcode ..
  obtain ⟨chain, last, brk', kept, opcode, -⟩ := exitsFrom_ret platform hooks brk head
    (nodesBehind platform (before ++ [.plain CEE_RET operand]) after)
  have member : last.node ∈ (injectedNodes platform hooks instrs).map Probed.node := by
    rw [split, whole, nodesBehind_cons, rawNodes, List.map_singleton, List.singleton_append, kept]
    simp
  obtain ⟨early, late, cut⟩ := List.append_of_mem member
  obtain ⟨early', late', nodes, -, widening⟩ := forall₂_split (cut ▸ run.assembled.widening)
  obtain ⟨node', others, wide, -, rfl⟩ := List.forall₂_cons_left_iff.mp widening
  have ends : returns (node'.instruction platform) = true := by
    rw [wide.instruction_eq, returns_iff]
    exact opcode
  have inside : node' ∈ early' ++ node' :: others := by simp
  exact listed.ret (nodes ▸ inside) (returns_iff.mp ends)

/-- The regions of the exported body are well formed. -/
theorem Injection.wellFormed (run : Injection platform body hooks instrs s nodes' result)
    (wellFormed : WellFormedRegions platform body instrs) (listed : Listed platform nodes' result blocks instrs')
    {body' : MethodBody} (clauses : body'.EH = result.body.EH) : WellFormedRegions platform body' instrs' where
  begins := by
    intro exported member region
    obtain ⟨ehInfo, inside, moved⟩ := clause_source run.clauses (clauses ▸ member)
    exact (run.range_boundary wellFormed listed inside moved region).1
  ends := by
    intro exported member region
    obtain ⟨ehInfo, inside, moved⟩ := clause_source run.clauses (clauses ▸ member)
    exact (run.range_boundary wellFormed listed inside moved region).2
  handlers := by
    intro exported member
    obtain ⟨ehInfo, inside, moved⟩ := clause_source run.clauses (clauses ▸ member)
    exact Injection.handler_positive wellFormed inside moved
  noRet := by
    intro before operand after split exported member region covered
    obtain ⟨ehInfo, inside, moved⟩ := clause_source run.clauses (clauses ▸ member)
    obtain ⟨entry, inList, ret, place⟩ := run.ret_listed listed split
    rw [← place] at covered
    by_cases original : entry.role = .original
    · obtain ⟨node, rfl⟩ : ∃ node, entry = ⟨node, .original⟩ := ⟨entry.node, by rw [← original]⟩
      obtain ⟨before, operand, after, split, start⟩ := ret_of_imported (injected_sound inList) ret
      rw [start] at covered
      exact wellFormed.noRet before operand after split ehInfo inside region
        ((moved.kept.instructions region before _ after split).mp covered)
    · exact moved.kept.added region entry inList original covered

end Exported

/-- A body the hooks can be injected into: a sequence of instructions with well-formed regions. -/
structure Instrumentable (platform : Platform) (body : MethodBody) (instrs : List RawInstr) : Prop where
  valid : ∀ instr ∈ instrs, instr.Valid platform
  code : body.Code = listingBytes platform instrs
  regions : WellFormedRegions platform body instrs

/-- Bodies instrumented with one set of hooks after the other. -/
inductive Layered (platform : Platform) : MethodBody → List Hooks → MethodBody → Prop
  | nil : Layered platform body [] body
  | cons (run : InjectEnterExitHooks platform body hooks = .ok result) (code : middle.Code = result.body.Code)
      (clauses : middle.EH = result.body.EH) (rest : Layered platform middle layers last) :
      Layered platform body (hooks :: layers) last

section Layers

variable {platform : Platform} {body last : MethodBody} {hooks : Hooks} {instrs : List RawInstr} {result : Exported}

/-- A body with a header, if the exported code is not too long for an image. -/
theorem Injection.reread {s : ILRewriter} {nodes' : List Instr}
    (run : Injection platform body hooks instrs s nodes' result)
    (small : 10 * (2 + 4 * (importedNodes platform instrs).length) + 12 < 2 ^ 32) :
    ∃ last : MethodBody, last.Code = result.body.Code ∧ last.EH = result.body.EH := by
  have inImage : result.body.Code.length + 12 < 2 ^ 32 := by
    have fits := run.assembled.laid.fits
    have grown := length_injectedNodes_le platform hooks instrs
    rw [outputRoom, List.length_map] at fits
    rw [run.assembled.laid.code, length_encodeFrom]
    have room := fits.trans (Nat.mod_le ..)
    omega
  have few : result.body.EH.length ≤ 699050 := run.clauses.length_eq ▸ body.clauses_le
  exact ⟨⟨0, 8, 0, result.body.Code, result.body.EH, smallStack_lt, inImage, few⟩, rfl, rfl⟩

theorem Listed.count {nodes' : List Instr} (listed : Listed platform nodes' result blocks instrs') :
    (importedNodes platform instrs').length = nodes'.length := by
  rw [importedNodes, List.length_map, length_loadedNodes, listed.listing, rawBlocks_nodes, listed.nodes]

private theorem Injection.again {s : ILRewriter} {nodes' : List Instr}
    (run : Injection platform body hooks instrs s nodes' result)
    (regions : WellFormedRegions platform body instrs) (code : last.Code = result.body.Code)
    (clauses : last.EH = result.body.EH) :
    ∃ blocks instrs', Listed platform nodes' result blocks instrs' ∧ Instrumentable platform last instrs' := by
  obtain ⟨blocks, instrs', listed⟩ := run.listed
  exact ⟨blocks, instrs', listed, listed.valid, code.trans listed.code, run.wellFormed regions listed clauses⟩

private theorem Injection.succeeds_again {s : ILRewriter} {nodes' : List Instr}
    (run : Injection platform body hooks instrs s nodes' result) (listed : Listed platform nodes' result blocks instrs')
    (again : Instrumentable platform last instrs') (others : Hooks)
    (ret : others.onExitHook ≠ mdTokenNil → ∃ operand, .plain CEE_RET operand ∈ instrs)
    (small : 10 * (injectedNodes platform others instrs').length < 2 ^ 32) :
    ∃ result', InjectEnterExitHooks platform last others = .ok result' := by
  have references := references_of_regions again.regions again.code (run.wellTargeted listed)
  refine InjectEnterExitHooks_succeeds again.valid again.code references (fun exit => ?_) small
  obtain ⟨operand, member⟩ := ret exit
  exact run.keeps_ret listed member

/-- What `InjectEnterExitHooks` exports can be instrumented again: Import accepts it with every reference
resolved, its regions are well formed, and no hook fails for want of a RET that was there. -/
theorem InjectEnterExitHooks_instrumentable (instrumentable : Instrumentable platform body instrs)
    (run : InjectEnterExitHooks platform body hooks = .ok result) (code : last.Code = result.body.Code)
    (clauses : last.EH = result.body.EH) :
    ∃ instrs', Instrumentable platform last instrs' ∧ WellTargeted platform instrs' ∧
      (∃ s, Import platform last = .ok s ∧ s.Resolved platform) ∧
      ∀ others : Hooks, (others.onExitHook ≠ mdTokenNil → ∃ operand, .plain CEE_RET operand ∈ instrs) →
        10 * (injectedNodes platform others instrs').length < 2 ^ 32 →
          ∃ result', InjectEnterExitHooks platform last others = .ok result' := by
  obtain ⟨valid, bytes, regions⟩ := instrumentable
  obtain ⟨s, nodes', run⟩ := injection_of_ok valid bytes regions run
  obtain ⟨blocks, instrs', listed, again⟩ := run.again regions code clauses
  have targets := run.wellTargeted listed
  have references := references_of_regions again.regions again.code targets
  refine ⟨instrs', again, targets, ?_, fun others ret small => ?_⟩
  · obtain ⟨imported, accepted, holds⟩ := Import_of_listing again.valid again.code fun ehInfo member =>
      references.clauses ehInfo member _ (by simp [EHInfo.positions])
    exact ⟨imported, accepted, holds.resolved_iff.mpr ⟨references.code, references.clauses⟩⟩
  · exact run.succeeds_again listed again others ret small

/-- A body that takes hooks of any kind: its branches lead to instructions, and it has a RET. -/
structure Hookable (platform : Platform) (body : MethodBody) (instrs : List RawInstr) : Prop
    extends Instrumentable platform body instrs where
  targets : WellTargeted platform instrs
  ret : ∃ operand, .plain CEE_RET operand ∈ instrs

/-- Hooks can be injected into a body that takes them, while it is not too long, and the result takes hooks again. -/
theorem Hookable.inject (hookable : Hookable platform body instrs)
    (small : (importedNodes platform instrs).length < 2 ^ 25) (hooks : Hooks) :
    ∃ result, InjectEnterExitHooks platform body hooks = .ok result ∧
      result.body.Code.length + 24 * result.body.EH.length < 2 ^ 31 ∧
      ∀ last : MethodBody, last.Code = result.body.Code → last.EH = result.body.EH →
        ∃ instrs', Hookable platform last instrs' ∧
          (importedNodes platform instrs').length ≤ 2 + 4 * (importedNodes platform instrs).length := by
  obtain ⟨⟨valid, bytes, regions⟩, targets, ret⟩ := hookable
  have most := length_injectedNodes_le platform hooks instrs
  have references := references_of_regions regions bytes targets
  obtain ⟨result, ok⟩ : ∃ result, InjectEnterExitHooks platform body hooks = .ok result :=
    InjectEnterExitHooks_succeeds valid bytes references (fun _ => ret) (by omega)
  obtain ⟨s, nodes', run⟩ := injection_of_ok valid bytes regions ok
  refine ⟨result, ok, ?_, fun last code clauses => ?_⟩
  · have fits := run.assembled.laid.fits
    have few : result.body.EH.length ≤ 699050 := run.clauses.length_eq ▸ body.clauses_le
    rw [outputRoom, List.length_map] at fits
    rw [run.assembled.laid.code, length_encodeFrom]
    have room := fits.trans (Nat.mod_le ..)
    omega
  · obtain ⟨blocks, instrs', listed, again⟩ := run.again regions code clauses
    obtain ⟨operand, member⟩ := ret
    refine ⟨instrs', ⟨again, run.wellTargeted listed, run.keeps_ret listed member⟩, ?_⟩
    rw [listed.count, ← run.assembled.widening.length_eq, List.length_map]
    exact most

/-- Layers around layers. -/
theorem Layered.trans {middle : MethodBody} {layers others : List Hooks} (first : Layered platform body layers middle)
    (second : Layered platform middle others last) : Layered platform body (layers ++ others) last := by
  induction first with
  | nil => exact second
  | cons run code clauses rest ih => exact .cons run code clauses (ih second)

theorem Layered.of_run (layered : Layered platform body [hooks] last)
    (run : InjectEnterExitHooks platform body hooks = .ok result) :
    last.Code = result.body.Code ∧ last.EH = result.body.EH := by
  cases layered with
  | cons run' code clauses rest =>
    cases rest
    obtain rfl := Except.ok.inj (run'.symm.trans run)
    exact ⟨code, clauses⟩

theorem Layered.instrumentable {layers : List Hooks} (layered : Layered platform body layers last)
    (instrumentable : Instrumentable platform body instrs) : ∃ instrs', Instrumentable platform last instrs' := by
  induction layered generalizing instrs with
  | nil => exact ⟨instrs, instrumentable⟩
  | cons run code clauses rest ih =>
    obtain ⟨valid, bytes, regions⟩ := instrumentable
    obtain ⟨s, nodes', run⟩ := injection_of_ok valid bytes regions run
    obtain ⟨blocks, instrs', listed, again⟩ := run.again regions code clauses
    exact ih again

/-- Each layer puts its events around those of the layers in it. -/
theorem Layered.brackets {State Event : Type} {semantics : Semantics Instruction (List Protection) State Event}
    {push : Nat → State → State} {entered left : Hooks → Event} {layers : List Hooks}
    (layered : Layered platform body layers last) (instrumentable : Instrumentable platform body instrs)
    (hooked : ∀ hooks ∈ layers, Hooked semantics hooks push (entered hooks) (left hooks)) :
    Brackets semantics (bodyProgram platform body.Code body.EH) (bodyProgram platform last.Code last.EH) returns
      (layers.reverse.flatMap fun hooks => eventOf hooks.onEnterHook (entered hooks))
      (layers.flatMap fun hooks => eventOf hooks.onExitHook (left hooks)) := by
  induction layered generalizing instrs with
  | nil => exact .refl ..
  | cons run code clauses rest ih =>
    obtain ⟨first, others⟩ := List.forall_mem_cons.mp hooked
    obtain ⟨valid, bytes, regions⟩ := instrumentable
    obtain ⟨s, nodes', run⟩ := injection_of_ok valid bytes regions run
    obtain ⟨blocks, instrs', listed, again⟩ := run.again regions code clauses
    have inner := run.brackets regions first
    rw [← code, ← clauses] at inner
    rw [List.reverse_cons, List.flatMap_append, List.flatMap_singleton, List.flatMap_cons]
    exact inner.trans (ih again others)

/-- The events of layers of hooks nest: the last layer shows first that a method is entered, and last
that it is left. -/
theorem layers_nest {State Event : Type} {semantics : Semantics Instruction (List Protection) State Event}
    {push : Nat → State → State} {entered left : Hooks → Event} {layers : List Hooks}
    (instrumentable : Instrumentable platform body instrs) (layered : Layered platform body layers last)
    (hooked : ∀ hooks ∈ layers, Hooked semantics hooks push (entered hooks) (left hooks)) :
    Brackets semantics (bodyProgram platform body.Code body.EH) (bodyProgram platform last.Code last.EH) returns
      (layers.reverse.flatMap fun hooks => eventOf hooks.onEnterHook (entered hooks))
      (layers.flatMap fun hooks => eventOf hooks.onExitHook (left hooks)) :=
  layered.brackets instrumentable hooked

end Layers

section Witness

theorem InjectEnterExitHooks_instrumentable_leftTry : ∃ result last instrs',
    InjectEnterExitHooks Ecma335.platform leftTry leftTryHooks = .ok result ∧
      Instrumentable Ecma335.platform last instrs' ∧ WellTargeted Ecma335.platform instrs' ∧
      (∃ s, Import Ecma335.platform last = .ok s ∧ s.Resolved Ecma335.platform) ∧
      ∀ others : Hooks, (others.onExitHook ≠ mdTokenNil → ∃ operand, .plain CEE_RET operand ∈ leftTryInstrs) →
        10 * (injectedNodes Ecma335.platform others instrs').length < 2 ^ 32 →
          ∃ result', InjectEnterExitHooks Ecma335.platform last others = .ok result' := by
  obtain ⟨result, run⟩ := leftTry_injected
  obtain ⟨s, nodes', exported⟩ := injection_of_ok leftTry_valid leftTry_code leftTry_wellFormed run
  obtain ⟨last, code, clauses⟩ := exported.reread (by decide)
  obtain ⟨instrs', again⟩ := InjectEnterExitHooks_instrumentable ⟨leftTry_valid, leftTry_code, leftTry_wellFormed⟩ run
    code clauses
  exact ⟨result, last, instrs', run, again⟩

/-- A second profiler around the first one. -/
theorem layers_nest_leftTry : ∃ last,
    Layered Ecma335.platform leftTry [leftTryHooks, ⟨0x06000003, 0x06000004, some 8⟩] last ∧
      Brackets stackSemantics (bodyProgram Ecma335.platform leftTry.Code leftTry.EH)
        (bodyProgram Ecma335.platform last.Code last.EH) returns
        [(0x06000003, 8), (0x06000001, 7)] [(0x06000002, 7), (0x06000004, 8)] := by
  obtain ⟨result, run⟩ := leftTry_injected
  obtain ⟨s, nodes', exported⟩ := injection_of_ok leftTry_valid leftTry_code leftTry_wellFormed run
  obtain ⟨middle, code, clauses⟩ := exported.reread (by decide)
  obtain ⟨blocks, instrs', listed, again⟩ := exported.again leftTry_wellFormed code clauses
  have few : (importedNodes Ecma335.platform instrs').length ≤ 18 := by
    rw [listed.count, ← exported.assembled.widening.length_eq, List.length_map]
    exact length_injectedNodes_le Ecma335.platform leftTryHooks leftTryInstrs
  have more := length_injectedNodes_le Ecma335.platform ⟨0x06000003, 0x06000004, some 8⟩ instrs'
  obtain ⟨result', run'⟩ := exported.succeeds_again listed again ⟨0x06000003, 0x06000004, some 8⟩
    (fun _ => ⟨0, by decide⟩) (by omega)
  obtain ⟨s', nodes'', exported'⟩ := injection_of_ok again.valid again.code again.regions run'
  obtain ⟨last, code', clauses'⟩ := exported'.reread (by omega)
  have layered := Layered.cons run code clauses (.cons run' code' clauses' .nil)
  have hooked : ∀ hooks ∈ [leftTryHooks, ⟨0x06000003, 0x06000004, some 8⟩], Hooked stackSemantics hooks List.cons
      (hooks.onEnterHook.toNat, (hooks.hookArg.getD 0).toNat % 2 ^ 32)
      (hooks.onExitHook.toNat, (hooks.hookArg.getD 0).toNat % 2 ^ 32) := by
    intro hooks member
    simp only [List.mem_cons, List.not_mem_nil, or_false] at member
    rcases member with rfl | rfl <;> exact stackSemantics_hooked ..
  exact ⟨last, layered, layers_nest ⟨leftTry_valid, leftTry_code, leftTry_wellFormed⟩ layered hooked⟩

end Witness

end ClrProfiling
