import ClrProfiling.Foundation.Ordering
import ClrProfiling.IL.Injection

/-! Exception regions behind `InjectEnterExitHooks`: the instructions they covered, and
nothing that was added. -/

namespace ClrProfiling

open LinkedRing Word Ordering ILRewriter

/-- The parts of a clause. A filter reaches up to its handler. -/
inductive Region where
  | tryBlock
  | filter
  | handler
deriving DecidableEq, Repr

/-- The first position of a region and the one behind it. -/
def EHInfo.range (ehInfo : EHInfo) : Region → Nat × Nat
  | .tryBlock => (ehInfo.TryOffset.toNat, ehInfo.TryOffset.toNat + ehInfo.TryLength.toNat)
  | .filter => if ehInfo.isFilter then (ehInfo.ClassTokenOrFilterOffset.toNat, ehInfo.HandlerOffset.toNat) else (0, 0)
  | .handler => (ehInfo.HandlerOffset.toNat, ehInfo.HandlerOffset.toNat + ehInfo.HandlerLength.toNat)

def EHInfo.covers (ehInfo : EHInfo) (region : Region) (position : Nat) : Prop :=
  (ehInfo.range region).1 ≤ position ∧ position < (ehInfo.range region).2

/-- Regions begin and end at instructions, handlers are not empty, and no region holds a RET. -/
structure WellFormedRegions (platform : Platform) (body : MethodBody) (instrs : List RawInstr) : Prop where
  begins : ∀ ehInfo ∈ body.EH, ∀ region, Boundary platform instrs (ehInfo.range region).1
  ends : ∀ ehInfo ∈ body.EH, ∀ region, Boundary platform instrs (ehInfo.range region).2
  handlers : ∀ ehInfo ∈ body.EH, 0 < ehInfo.HandlerLength.toNat
  noRet : ∀ before operand after, instrs = before ++ .plain CEE_RET operand :: after →
    ∀ ehInfo ∈ body.EH, ∀ region, ¬ehInfo.covers region (listingBytes platform before).length

/-- The exported clause covers the instructions the clause covered, at their new offsets,
and no node that was added or put in place of a RET. -/
structure RegionsKept (platform : Platform) (hooks : Hooks) (instrs : List RawInstr) (offset : Ptr → Nat)
    (ehInfo exported : EHInfo) : Prop where
  flags : exported.Flags = ehInfo.Flags
  classToken : ¬ehInfo.isFilter → exported.ClassTokenOrFilterOffset = ehInfo.ClassTokenOrFilterOffset
  instructions : ∀ region before instr after, instrs = before ++ instr :: after →
    (exported.covers region (offset (startNode platform instrs (listingBytes platform before).length)) ↔
      ehInfo.covers region (listingBytes platform before).length)
  added : ∀ region, ∀ entry ∈ injectedNodes platform hooks instrs, entry.role ≠ .original →
    ¬exported.covers region (offset entry.node.ptr)

section Growth

variable {platform : Platform}

/-- The starts of nodes grow along the list, up to the end behind it. -/
theorem startOf_grows {nodes : List Instr} (positive : ∀ node ∈ nodes, 0 < nodeSize platform node.opcode)
    (nodup : (m_IL :: nodes.map Instr.ptr).Nodup) :
    Grows (startOf platform nodes) (nodes.map Instr.ptr ++ [m_IL]) := by
  induction nodes with
  | nil => exact List.pairwise_singleton ..
  | cons node rest ih =>
    obtain ⟨size, positive⟩ := List.forall_mem_cons.mp positive
    obtain ⟨hubFresh, nodup⟩ := List.nodup_cons.mp nodup
    obtain ⟨fresh, nodup⟩ := List.nodup_cons.mp nodup
    have apart : node.ptr ∉ rest.map Instr.ptr ++ [m_IL] := by
      intro member
      rcases List.mem_append.mp member with listed | hub
      · exact fresh listed
      · exact hubFresh (by simp [List.mem_singleton.mp hub])
    have later (p : Ptr) (member : p ∈ rest.map Instr.ptr ++ [m_IL]) :
        startOf platform (node :: rest) p = nodeSize platform node.opcode + startOf platform rest p := by
      rw [startOf, if_neg]
      rintro rfl
      exact apart member
    have grows := ih positive (List.nodup_cons.mpr ⟨fun member => hubFresh (List.mem_cons_of_mem _ member), nodup⟩)
    refine List.pairwise_cons.mpr ⟨fun p member => ?_, ?_⟩
    · rw [startOf_head, later p member]
      omega
    · refine grows.imp_of_mem fun first second less => ?_
      rw [later _ first, later _ second]
      omega

end Growth

section Shadows

variable {onExitHook : UInt32} {hookArg : Option UInt64} {nodes : List Instr} {probed : List Probed}

/-- The nodes put in for a RET stand behind whatever the RET stands behind. -/
theorem Expanded.shadow {label : Ptr → Nat} {entry : Probed} (expanded : Expanded onExitHook hookArg nodes probed)
    (grows : Grows label ((probed.map Probed.node).map Instr.ptr ++ [m_IL])) (member : entry ∈ probed)
    (added : entry.role ≠ .original) :
    ∃ ret ∈ nodes, ret.opcode = CEE_RET ∧ label ret.ptr ≤ label entry.node.ptr ∧
      ∀ p ∈ nodes.map Instr.ptr ++ [m_IL], label p ≤ label entry.node.ptr → label p ≤ label ret.ptr := by
  induction expanded with
  | nil => simp at member
  | @keep nodes probed node rest ih =>
    rcases List.mem_cons.mp member with rfl | later
    · exact absurd rfl added
    · obtain ⟨ret, listed, opcode, behind, shadow⟩ := ih grows.tail later
      refine ⟨ret, List.mem_cons_of_mem _ listed, opcode, behind, fun p inside below => ?_⟩
      rcases List.mem_cons.mp inside with rfl | inside
      · have after : ret.ptr ∈ (probed.map Probed.node).map Instr.ptr ++ [m_IL] :=
          List.mem_append_left _ (rest.sublist.subset (List.mem_map_of_mem listed))
        exact Nat.le_of_lt (grows.head_lt after)
      · exact shadow p inside below
  | @ret nodes probed node opcode brk newRet rest ih =>
    have chunk : ((⟨{ node with opcode := CEE_NOP }, .replaced node⟩ : Probed) ::
        ((probeNodes brk onExitHook hookArg).map (⟨·, .exitProbe node⟩) ++
          ⟨⟨newRet, CEE_RET, 0⟩, .returns node⟩ :: probed)).map (Instr.ptr ∘ Probed.node) =
        (node.ptr :: ((probeNodes brk onExitHook hookArg).map Instr.ptr ++ [newRet])) ++
          probed.map (Instr.ptr ∘ Probed.node) := by
      simp [Function.comp_def]
    have original (p : Ptr) (inside : p ∈ nodes.map Instr.ptr ++ [m_IL]) :
        p ∈ probed.map (Instr.ptr ∘ Probed.node) ++ [m_IL] := by
      rw [← List.map_map]
      exact (rest.sublist.append_right [m_IL]).subset inside
    rw [List.map_map, chunk, List.append_assoc] at grows
    rw [List.append_cons _ _ probed, ← List.cons_append, List.mem_append] at member
    rcases member with inChunk | later
    · have here : entry.node.ptr ∈ node.ptr :: ((probeNodes brk onExitHook hookArg).map Instr.ptr ++ [newRet]) := by
        have listed := List.mem_map_of_mem (f := Instr.ptr ∘ Probed.node) inChunk
        simpa [Function.comp_def] using listed
      refine ⟨node, List.mem_cons_self .., opcode, ?_, fun p inside below => ?_⟩
      · rcases List.mem_cons.mp here with same | behind
        · exact Nat.le_of_eq (by rw [same])
        · exact Nat.le_of_lt (grows.head_lt (List.mem_append_left _ behind))
      · rcases List.mem_cons.mp inside with rfl | inside
        · exact Nat.le_refl _
        · exact absurd below (Nat.not_le_of_lt (grows.append_lt here (original p inside)))
    · obtain ⟨ret, listed, opcode, behind, shadow⟩ :=
        ih (by rw [List.map_map]; exact grows.behind) later
      refine ⟨ret, List.mem_cons_of_mem _ listed, opcode, behind, fun p inside below => ?_⟩
      rcases List.mem_cons.mp inside with rfl | inside
      · exact Nat.le_of_lt (grows.append_lt (List.mem_cons_self ..)
          (original ret.ptr (List.mem_append_left _ (List.mem_map_of_mem listed))))
      · exact shadow p inside below

theorem Expanded.head_ptr (expanded : Expanded onExitHook hookArg nodes probed) (hub : Ptr) :
    rightOf hub ((probed.map Probed.node).map Instr.ptr) = rightOf hub (nodes.map Instr.ptr) := by
  cases expanded <;> rfl

theorem Expanded.cut_plain {before after : List Instr}
    (expanded : Expanded onExitHook hookArg (before ++ node :: after) probed)
    (plain : node.opcode ≠ CEE_RET) :
    ∃ early late, probed = early ++ ⟨node, .original⟩ :: late ∧ Expanded onExitHook hookArg after late := by
  obtain ⟨early, late, rfl, -, behind⟩ := expanded.split
  cases behind with
  | keep _ rest => exact ⟨early, _, rfl, rest⟩
  | ret _ opcode brk newRet rest => exact absurd opcode plain

end Shadows

section Positions

variable {platform : Platform} {instrs : List RawInstr} {hooks : Hooks}

/-- Every RET node is the node of a RET. -/
theorem ret_of_imported (member : node ∈ importedNodes platform instrs) (ret : node.opcode = CEE_RET) :
    ∃ before operand after, instrs = before ++ .plain CEE_RET operand :: after ∧
      node.ptr = startNode platform instrs (listingBytes platform before).length := by
  obtain ⟨source, listed, rfl⟩ := List.mem_map.mp member
  obtain ⟨before, instr, after, rfl, other, inside, rfl⟩ :=
    (exists_loadedNodes _ _ fun other => other = source).mp ⟨source, listed, rfl⟩
  rw [resolved_opcode] at ret
  cases instr with
  | plain opcode operand =>
    obtain rfl := List.mem_singleton.mp inside
    obtain rfl : opcode = CEE_RET := ret
    exact ⟨before, operand, after, rfl, by rw [resolved_ptr, startNode_start]⟩
  | switch targets =>
    rcases List.mem_cons.mp inside with rfl | argument
    · exact absurd (show CEE_SWITCH = CEE_RET from ret) (by decide)
    · have external : other.isArgument platform = false := external_of_hook (by simp [hookOpcodes, ret])
      simp [Instr.isArgument, targetNodes_opcode argument] at external

theorem startNode_mem (boundary : Boundary platform instrs position) :
    startNode platform instrs position ∈ (importedNodes platform instrs).map Instr.ptr ++ [m_IL] := by
  rcases startNode_refers_iff.mpr boundary with hub | listed
  · exact List.mem_append_right _ (by rw [hub]; exact List.mem_singleton_self _)
  · exact List.mem_append_left _ listed

theorem imported_nodup (platform : Platform) (instrs : List RawInstr) :
    (m_IL :: (importedNodes platform instrs).map Instr.ptr).Nodup := by
  rw [importedNodes_ptrs]
  refine List.nodup_cons.mpr ⟨fun member => ?_, List.nodup_range'⟩
  have low := (List.mem_range'_1.mp member).1
  exact absurd low (by decide)

theorem imported_grows (valid : ∀ instr ∈ instrs, instr.Valid platform) :
    Grows (startOf platform (importedNodes platform instrs))
      ((importedNodes platform instrs).map Instr.ptr ++ [m_IL]) :=
  startOf_grows (fun _ member => nodeSize_pos (importedNodes_wellBlocked valid) member) (imported_nodup platform instrs)

theorem injected_sublist (platform : Platform) (hooks : Hooks) (instrs : List RawInstr) :
    ((importedNodes platform instrs).map Instr.ptr ++ [m_IL]).Sublist
      (((injectedNodes platform hooks instrs).map Probed.node).map Instr.ptr ++ [m_IL]) := by
  obtain ⟨enter, exits, whole, -, expanded⟩ := expanded_injected platform hooks instrs
  rw [whole, entries, List.map_append, List.map_append]
  exact (expanded.sublist.trans (List.sublist_append_right ..)).append_right [m_IL]

end Positions

section Clauses

variable {platform : Platform} {body : MethodBody} {hooks : Hooks} {instrs : List RawInstr} {s : ILRewriter}
  {offset : Ptr → Nat} {ehInfo : EHInfo}

private theorem cutAt {nodes : List Instr} (nodup : (m_IL :: nodes.map Instr.ptr).Nodup)
    (member : p ∈ nodes.map Instr.ptr ++ [m_IL]) :
    ∃ front back, nodes = front ++ back ∧ p = rightOf m_IL (back.map Instr.ptr) ∧
      nodeBefore nodes p = leftOf m_IL (front.map Instr.ptr) := by
  obtain ⟨hubFresh, nodup⟩ := List.nodup_cons.mp nodup
  rcases List.mem_append.mp member with listed | hub
  · obtain ⟨node, inside, rfl⟩ := List.mem_map.mp listed
    obtain ⟨front, back, rfl⟩ := List.append_of_mem inside
    refine ⟨front, node :: back, rfl, rfl, ?_⟩
    rw [List.map_append, List.map_cons, List.nodup_middle, List.nodup_cons] at nodup
    have apart : ∀ q ∈ front.map Instr.ptr, decide (q ≠ node.ptr) = true := fun q early =>
      decide_eq_true fun same => nodup.1 (List.mem_append_left _ (same ▸ early))
    rw [nodeBefore, List.map_append, List.takeWhile_append_of_pos apart]
    simp
  · obtain rfl := List.mem_singleton.mp hub
    have apart : ∀ q ∈ nodes.map Instr.ptr, decide (q ≠ m_IL) = true := fun q listed =>
      decide_eq_true fun same => hubFresh (same ▸ listed)
    exact ⟨nodes, [], by simp, rfl, by rw [nodeBefore, List.takeWhile_eq_self_iff.mpr apart]⟩

/-- The node in front of the end of a handler stands in the handler, so it is no RET. -/
private theorem lastOfHandler (wellFormed : WellFormedRegions platform body instrs) (member : ehInfo ∈ body.EH)
    (valid : ∀ instr ∈ instrs, instr.Valid platform) :
    ∃ front last back, importedNodes platform instrs = front ++ last :: back ∧ last.opcode ≠ CEE_RET ∧
      startNode platform instrs (ehInfo.range .handler).2 = rightOf m_IL (back.map Instr.ptr) ∧
      nodeBefore (importedNodes platform instrs) (startNode platform instrs (ehInfo.range .handler).2) = last.ptr := by
  have begins := wellFormed.begins ehInfo member .handler
  have ends := wellFormed.ends ehInfo member .handler
  have grows := imported_grows valid
  have first := startOf_startNode valid begins
  have final := startOf_startNode valid ends
  have proper : (ehInfo.range .handler).1 < (ehInfo.range .handler).2 :=
    Nat.lt_add_of_pos_right (wellFormed.handlers ehInfo member)
  have beginListed := startNode_mem begins
  obtain ⟨front, back, split, finish, before⟩ := cutAt (imported_nodup platform instrs) (startNode_mem ends)
  have atCut : (ehInfo.range .handler).2 = totalSize platform front := by
    have nodup := imported_nodup platform instrs
    rw [split] at nodup final
    rw [← final, finish, startOf_cut platform nodup]
  cases front using List.reverseRecOn with
  | nil =>
    rw [totalSize_nil] at atCut
    omega
  | append_singleton front last =>
    rw [List.append_assoc, List.singleton_append] at split
    refine ⟨front, last, back, split, fun ret => ?_, finish, by rw [before]; simp⟩
    obtain ⟨earlier, operand, later, code, place⟩ :=
      ret_of_imported (by rw [split]; simp) ret
    have here := startOf_startNode valid ⟨earlier, _, code, rfl⟩
    rw [← place] at here
    have order : ((importedNodes platform instrs).map Instr.ptr ++ [m_IL]) =
        front.map Instr.ptr ++ last.ptr :: (back.map Instr.ptr ++ [m_IL]) := by
      simp [split]
    rw [order] at grows beginListed
    obtain ⟨rest, endFirst⟩ : ∃ rest, back.map Instr.ptr ++ [m_IL] =
        startNode platform instrs (ehInfo.range .handler).2 :: rest := by
      rw [finish]
      cases back <;> simp
    rw [endFirst] at grows beginListed
    refine wellFormed.noRet earlier operand later code ehInfo member .handler ⟨?_, ?_⟩
    · rw [← first, ← here]
      rcases List.mem_append.mp beginListed with early | late
      · exact Nat.le_of_lt (grows.append_lt early (List.mem_cons_self ..))
      · rcases List.mem_cons.mp late with same | late
        · rw [same]
        · -- The end of the handler comes right behind its last node, so its start does not.
          have wrong := grows.behind.tail.head_le late
          omega
    · rw [← final, ← here]
      exact grows.behind.head_lt (List.mem_cons_self ..)

/-- The node in front of the end of a handler still stands in front of it. -/
theorem next_handlerEnd {next : Ptr → Ptr} (wellFormed : WellFormedRegions platform body instrs)
    (member : ehInfo ∈ body.EH)
    (valid : ∀ instr ∈ instrs, instr.Valid platform)
    (ring : ∀ before node after, ((injectedNodes platform hooks instrs).map Probed.node).map Instr.ptr =
      before ++ node :: after → next node = rightOf m_IL after) :
    next (nodeBefore (importedNodes platform instrs) (startNode platform instrs (ehInfo.range .handler).2)) =
      startNode platform instrs (ehInfo.range .handler).2 := by
  obtain ⟨front, last, back, split, plain, finish, before⟩ := lastOfHandler wellFormed member valid
  obtain ⟨enter, exits, whole, -, expanded⟩ := expanded_injected platform hooks instrs
  rw [split] at expanded
  obtain ⟨early, late, rfl, behind⟩ := expanded.cut_plain plain
  rw [before, finish, ← behind.head_ptr]
  refine ring (((enter.map (⟨·, .enterProbe⟩ : Instr → Probed) ++ early).map Probed.node).map Instr.ptr) _ _ ?_
  rw [whole, entries]
  simp

private theorem range_ofNat {start stop : Nat} (ordered : start ≤ stop) (small : stop < 2 ^ 32) :
    ((UInt32.ofNat start).toNat, (UInt32.ofNat start).toNat + (UInt32.ofNat (sub32 stop start)).toNat) =
      (start, stop) := by
  have difference : sub32 stop start = stop - start := by
    simp only [sub32, wrap32]
    omega
  rw [difference, UInt32.toNat_ofNat', UInt32.toNat_ofNat', Nat.mod_eq_of_lt (by omega), Nat.mod_eq_of_lt (by omega)]
  congr 1
  omega

private theorem end_toNat {start length : UInt32} (code : body.Code = listingBytes platform instrs)
    (inside : Boundary platform instrs (start.toNat + length.toNat)) :
    (start + length).toNat = start.toNat + length.toNat := by
  have inImage := body.inImage
  have bound := inside.le
  rw [← code] at bound
  rw [UInt32.toNat_add, Nat.mod_eq_of_lt]
  omega

/-- The regions of an exported clause reach from the nodes they began at to the nodes they ended at. -/
theorem exported_range {next : Ptr → Ptr} (wellFormed : WellFormedRegions platform body instrs)
    (member : ehInfo ∈ body.EH) (code : body.Code = listingBytes platform instrs)
    (small : ∀ position, Boundary platform instrs position → offset (startNode platform instrs position) < 2 ^ 32)
    (ordered : ∀ first last, Boundary platform instrs first → Boundary platform instrs last → first ≤ last →
      offset (startNode platform instrs first) ≤ offset (startNode platform instrs last))
    (onward : next (nodeBefore (importedNodes platform instrs) (startNode platform instrs (ehInfo.range .handler).2)) =
      startNode platform instrs (ehInfo.range .handler).2)
    (region : Region) (present : region = .filter → ehInfo.isFilter) :
    (exportedClause offset next (importedClause platform instrs ehInfo)).range region =
      (offset (startNode platform instrs (ehInfo.range region).1),
        offset (startNode platform instrs (ehInfo.range region).2)) := by
  have begins := wellFormed.begins ehInfo member
  have ends := wellFormed.ends ehInfo member
  cases region with
  | tryBlock =>
    have tryEnd := end_toNat code (ends .tryBlock)
    have order := ordered _ _ (begins .tryBlock) (ends .tryBlock) (Nat.le_add_right ..)
    have range := range_ofNat order (small _ (ends .tryBlock))
    simpa [EHInfo.range, exportedClause, importedClause, tryEnd] using range
  | handler =>
    have handlerEnd := end_toNat code (ends .handler)
    have order := ordered _ _ (begins .handler) (ends .handler) (Nat.le_add_right ..)
    have range := range_ofNat order (small _ (ends .handler))
    simp only [EHInfo.range] at onward range
    simpa [EHInfo.range, exportedClause, importedClause, handlerEnd, onward] using range
  | filter =>
    have isFilter := present rfl
    have flag : ¬ehInfo.Flags &&& COR_ILEXCEPTION_CLAUSE_FILTER = 0 := isFilter
    have first := small _ (begins .filter)
    have last := small _ (ends .filter)
    simp only [EHInfo.range, if_pos isFilter] at first last
    have still : (exportedClause offset next (importedClause platform instrs ehInfo)).isFilter := isFilter
    simp only [EHInfo.range, if_pos isFilter, if_pos still]
    simp only [exportedClause, importedClause, if_neg flag, if_pos isFilter]
    rw [UInt32.toNat_ofNat', UInt32.toNat_ofNat', Nat.mod_eq_of_lt first, Nat.mod_eq_of_lt last]

/-- The offsets of the exported list grow along it. -/
theorem exported_grows {nodes' : List Instr} {result : Exported}
    (valid : ∀ instr ∈ instrs, instr.Valid platform)
    (assembled : Assembled platform ((injectedNodes platform hooks instrs).map Probed.node) nodes' s result) :
    Grows result.rewriter.m_offset (((injectedNodes platform hooks instrs).map Probed.node).map Instr.ptr ++ [m_IL]) ∧
      ∀ p ∈ ((injectedNodes platform hooks instrs).map Probed.node).map Instr.ptr ++ [m_IL],
        result.rewriter.m_offset p < 2 ^ 32 := by
  have blocked := (injected_wellBlocked hooks valid).widened assembled.widening
  have ptrs := widened_ptrs assembled.widening
  have laid := assembled.laid
  have starts : ∀ p ∈ ((injectedNodes platform hooks instrs).map Probed.node).map Instr.ptr ++ [m_IL],
      result.rewriter.m_offset p = startOf platform nodes' p := by
    intro p member
    apply laid.starts p
    rw [ptrs]
    rcases List.mem_append.mp member with listed | hub
    · exact List.mem_cons_of_mem _ listed
    · rw [List.mem_singleton.mp hub]
      exact List.mem_cons_self ..
  refine ⟨?_, fun p member => ?_⟩
  · have grows := startOf_grows (fun node member => nodeSize_pos blocked member) laid.holds.ring.nodup
    rw [ptrs] at grows
    refine grows.imp_of_mem fun first second less => ?_
    rw [starts _ first, starts _ second]
    exact less
  · have inside : startOf platform nodes' p ≤ totalSize platform nodes' := startOf_le nodes' p
    have fits := laid.fits
    have room := outputRoom_lt ((injectedNodes platform hooks instrs).map Probed.node)
    rw [starts p member]
    omega

/-- One clause of the exported table. -/
theorem clause_kept {next : Ptr → Ptr} (wellFormed : WellFormedRegions platform body instrs)
    (member : ehInfo ∈ body.EH) (valid : ∀ instr ∈ instrs, instr.Valid platform)
    (code : body.Code = listingBytes platform instrs)
    (grows : Grows offset (((injectedNodes platform hooks instrs).map Probed.node).map Instr.ptr ++ [m_IL]))
    (small : ∀ p ∈ ((injectedNodes platform hooks instrs).map Probed.node).map Instr.ptr ++ [m_IL], offset p < 2 ^ 32)
    (ring : ∀ before node after, ((injectedNodes platform hooks instrs).map Probed.node).map Instr.ptr =
      before ++ node :: after → next node = rightOf m_IL after) :
    RegionsKept platform hooks instrs offset ehInfo
      (exportedClause offset next (importedClause platform instrs ehInfo)) := by
  have part := injected_sublist platform hooks instrs
  have original := grows.sublist part
  have position (place : Nat) (boundary : Boundary platform instrs place) :
      startOf platform (importedNodes platform instrs) (startNode platform instrs place) = place :=
    startOf_startNode valid boundary
  have ordered (first last : Nat) (begins : Boundary platform instrs first) (ends : Boundary platform instrs last) :
      offset (startNode platform instrs first) ≤ offset (startNode platform instrs last) ↔ first ≤ last := by
    rw [original.le_iff (imported_grows valid) (startNode_mem begins) (startNode_mem ends), position _ begins,
      position _ ends]
  have range := exported_range wellFormed member code
    (fun place boundary => small _ (part.subset (startNode_mem boundary)))
    (fun first last begins ends => (ordered first last begins ends).mpr) (next_handlerEnd wellFormed member valid ring)
  have flags : (exportedClause offset next (importedClause platform instrs ehInfo)).Flags = ehInfo.Flags := rfl
  have covers (region : Region) (place : Nat) (boundary : Boundary platform instrs place) :
      (exportedClause offset next (importedClause platform instrs ehInfo)).covers region
          (offset (startNode platform instrs place)) ↔ ehInfo.covers region place := by
    by_cases present : region = .filter → ehInfo.isFilter
    · have begins := wellFormed.begins ehInfo member region
      have ends := wellFormed.ends ehInfo member region
      rw [EHInfo.covers, range region present, EHInfo.covers, ordered _ _ begins boundary, ← Nat.not_le,
        ordered _ _ ends boundary, Nat.not_le]
    · obtain ⟨rfl, plain⟩ : region = .filter ∧ ¬ehInfo.isFilter := by simpa using present
      have plain' : ¬(exportedClause offset next (importedClause platform instrs ehInfo)).isFilter := plain
      simp [EHInfo.covers, EHInfo.range, plain, plain']
  refine ⟨flags, fun plain => ?_, fun region before instr after split => ?_,
    fun region entry listed added covered => ?_⟩
  · have flag : ehInfo.Flags &&& COR_ILEXCEPTION_CLAUSE_FILTER = 0 := Decidable.not_not.mp plain
    simp only [exportedClause, importedClause, if_pos flag, if_neg plain]
  · exact covers region _ ⟨before, instr :: after, split, rfl⟩
  · by_cases present : region = .filter → ehInfo.isFilter
    · have begins := startNode_mem (wellFormed.begins ehInfo member region)
      rw [EHInfo.covers, range region present] at covered
      obtain ⟨enter, exits, whole, -, expanded⟩ := expanded_injected platform hooks instrs
      have nodes_eq : ((entries enter exits).map Probed.node).map Instr.ptr ++ [m_IL] =
          enter.map Instr.ptr ++ ((exits.map Probed.node).map Instr.ptr ++ [m_IL]) := by
        simp [entries, Function.comp_def]
      have inside := (expanded.sublist.append_right [m_IL]).subset begins
      rw [whole, nodes_eq] at grows
      rw [whole] at listed
      rcases List.mem_append.mp listed with inEnter | inExits
      · obtain ⟨node, opens, rfl⟩ := List.mem_map.mp inEnter
        exact absurd covered.1 (Nat.not_le_of_lt (grows.append_lt (List.mem_map_of_mem opens) inside))
      · -- A region that covers what was added for a RET covers the RET.
        obtain ⟨ret, retListed, opcode, behind, shadow⟩ := expanded.shadow grows.behind inExits added
        obtain ⟨before, operand, after, split, place⟩ := ret_of_imported retListed opcode
        refine wellFormed.noRet before operand after split ehInfo member region
          ((covers region _ ⟨before, _, split, rfl⟩).mp ?_)
        rw [EHInfo.covers, range region present, ← place]
        exact ⟨shadow _ begins covered.1, Nat.lt_of_le_of_lt behind covered.2⟩
    · obtain ⟨rfl, plain⟩ : region = .filter ∧ ¬ehInfo.isFilter := by simpa using present
      have plain' : ¬(exportedClause offset next (importedClause platform instrs ehInfo)).isFilter := plain
      simp [EHInfo.covers, EHInfo.range, plain'] at covered

end Clauses

section Injection

variable {platform : Platform} {body : MethodBody} {hooks : Hooks} {instrs : List RawInstr}

theorem forall₂_map_of_forall {infos : List EHInfo} {relation : EHInfo → EHInfo → Prop}
    {convert : EHInfo → EHInfo}
    (each : ∀ info ∈ infos, relation info (convert info)) : List.Forall₂ relation infos (infos.map convert) := by
  induction infos with
  | nil => exact .nil
  | cons info rest ih =>
    obtain ⟨first, others⟩ := List.forall_mem_cons.mp each
    exact .cons first (ih others)

/-- What `InjectEnterExitHooks` does to the regions of a body, at the offsets of the nodes in
the exported code. -/
structure RegionsPreserved (platform : Platform) (body : MethodBody) (hooks : Hooks) (instrs : List RawInstr)
    (result : Exported) : Prop where
  decodes : ∃ s loaded decoded, s.listing = (injectedNodes platform hooks instrs).map Probed.node ∧
    Decodes platform s result loaded decoded
  clauses : List.Forall₂ (RegionsKept platform hooks instrs result.rewriter.m_offset) body.EH result.body.EH

theorem references_of_regions (wellFormed : WellFormedRegions platform body instrs)
    (code : body.Code = listingBytes platform instrs) (targets : WellTargeted platform instrs) :
    RefersToBoundaries platform body instrs := by
  refine ⟨targets, fun ehInfo member position listed => ?_⟩
  have begins := wellFormed.begins ehInfo member
  have ends := wellFormed.ends ehInfo member
  simp only [EHInfo.positions, List.mem_append, List.mem_cons, List.not_mem_nil, or_false] at listed
  rcases listed with (rfl | rfl | rfl | rfl) | filter
  · exact begins .tryBlock
  · rw [end_toNat code (ends .tryBlock)]
    exact ends .tryBlock
  · exact begins .handler
  · rw [end_toNat code (ends .handler)]
    exact ends .handler
  · split at filter
    · rename_i isFilter
      have first := begins .filter
      rw [EHInfo.range, if_pos isFilter] at first
      rw [List.mem_singleton.mp filter]
      exact first
    · simp at filter

/-- Exception regions keep exactly their instructions, whatever hooks are injected. -/
theorem regions_preserved (valid : ∀ instr ∈ instrs, instr.Valid platform)
    (code : body.Code = listingBytes platform instrs) (wellFormed : WellFormedRegions platform body instrs) :
    (∀ result, InjectEnterExitHooks platform body hooks = .ok result →
      RegionsPreserved platform body hooks instrs result) ∧
    (WellTargeted platform instrs → (hooks.onExitHook ≠ mdTokenNil → ∃ operand, .plain CEE_RET operand ∈ instrs) →
      10 * (injectedNodes platform hooks instrs).length < 2 ^ 32 →
        ∃ result, InjectEnterExitHooks platform body hooks = .ok result) := by
  refine ⟨fun result run => ?_, fun targets ret small => ?_⟩
  · obtain ⟨s, injected, exported⟩ := InjectEnterExitHooks_eq_ok valid code run
    have closed := injected.closed exported
    obtain ⟨nodes', assembled⟩ := Export_eq_ok injected.holds closed exported
    obtain ⟨loaded, decoded, decodes⟩ := decodes_of_assembled injected.holds closed injected.blocked assembled
    obtain ⟨grows, narrow⟩ := exported_grows valid assembled
    refine ⟨⟨s, loaded, decoded, injected.holds.listing_eq, decodes⟩, ?_⟩
    rw [assembled.clauses, injected.clauses, List.map_map]
    refine forall₂_map_of_forall fun ehInfo member => ?_
    refine clause_kept wellFormed member valid code grows narrow fun before node after split => ?_
    have ring := assembled.laid.holds.ring
    rw [widened_ptrs assembled.widening, split] at ring
    exact ring.next_eq
  · exact InjectEnterExitHooks_succeeds valid code (references_of_regions wellFormed code targets) ret small

end Injection

section Witness

theorem leftTry_wellFormed : WellFormedRegions Ecma335.platform leftTry leftTryInstrs where
  begins := by
    intro ehInfo member region
    obtain rfl := List.mem_singleton.mp member
    exact leftTry_boundary (by cases region <;> decide)
  ends := by
    intro ehInfo member region
    obtain rfl := List.mem_singleton.mp member
    exact leftTry_boundary (by cases region <;> decide)
  handlers := by
    intro ehInfo member
    obtain rfl := List.mem_singleton.mp member
    decide
  noRet := by
    intro before operand after split ehInfo member region covered
    obtain rfl := List.mem_singleton.mp member
    have final : before = leftTryInstrs.take 3 := by
      rcases before with - | ⟨one, - | ⟨two, - | ⟨three, - | ⟨four, rest⟩⟩⟩⟩ <;> simp [leftTryInstrs] at split ⊢
      exact ⟨split.1.symm, split.2.1.symm, split.2.2.1.symm⟩
    rw [final, EHInfo.covers] at covered
    revert covered
    cases region <;> decide

def leftTryHooks : Hooks := ⟨0x06000001, 0x06000002, some 7⟩

theorem leftTry_injected : ∃ result, InjectEnterExitHooks Ecma335.platform leftTry leftTryHooks = .ok result :=
  InjectEnterExitHooks_succeeds leftTry_valid leftTry_code
    (references_of_regions leftTry_wellFormed leftTry_code leftTry_targets) (fun _ => ⟨0, by decide⟩) (by decide)

/-- The clause of a protected NOP behind both probes. -/
theorem regions_preserved_leftTry : ∃ result,
    InjectEnterExitHooks Ecma335.platform leftTry leftTryHooks = .ok result ∧
    RegionsPreserved Ecma335.platform leftTry leftTryHooks leftTryInstrs result := by
  obtain ⟨result, run⟩ := leftTry_injected
  exact ⟨result, run, (regions_preserved leftTry_valid leftTry_code leftTry_wellFormed).1 result run⟩

end Witness

end ClrProfiling
