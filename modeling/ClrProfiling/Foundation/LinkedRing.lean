import Mathlib

/-! Doubly linked rings around a hub, over one map for each link field. A ring
refines the list of nodes met by following `next` from the hub. -/

namespace LinkedRing

universe u v w

/-- The two link fields of every node. -/
structure Links (Node : Type u) where
  next : Node → Node
  prev : Node → Node

variable {Node : Type u}

/-- Two neighbours agree on the link between them. -/
def Links.Joined (links : Links Node) (left right : Node) : Prop :=
  links.next left = right ∧ links.prev right = left

/-- Following `next` from the hub meets `items` in order and comes back;
following `prev` meets them in reverse. -/
structure Links.IsRing (links : Links Node) (hub : Node) (items : List Node) : Prop where
  nodup : (hub :: items).Nodup
  joined : (hub :: (items ++ [hub])).IsChain links.Joined

/-- The neighbour before a cut of the ring's content. -/
def leftOf (hub : Node) (before : List Node) : Node := before.getLastD hub

/-- The neighbour after a cut of the ring's content. -/
def rightOf (hub : Node) (after : List Node) : Node := after.headD hub

@[simp] theorem leftOf_nil (hub : Node) : leftOf hub [] = hub := rfl

@[simp] theorem leftOf_append (hub node : Node) (before : List Node) :
    leftOf hub (before ++ [node]) = node := by
  simp [leftOf]

@[simp] theorem rightOf_nil (hub : Node) : rightOf hub [] = hub := rfl

@[simp] theorem rightOf_cons (hub node : Node) (after : List Node) :
    rightOf hub (node :: after) = node := rfl

theorem rightOf_mem (hub : Node) (before after : List Node) : rightOf hub after ∈ hub :: (before ++ after) := by
  cases after <;> simp

theorem leftOf_mem (hub : Node) (before : List Node) : leftOf hub before ∈ hub :: before := by
  cases before using List.reverseRecOn <;> simp

private theorem before_split (hub : Node) (before : List Node) :
    ∃ front, hub :: before = front ++ [leftOf hub before] := by
  cases before using List.reverseRecOn with
  | nil => exact ⟨[], rfl⟩
  | append_singleton rest last => exact ⟨hub :: rest, by simp⟩

private theorem after_split (hub : Node) (after : List Node) :
    ∃ back, after ++ [hub] = rightOf hub after :: back := by
  cases after with
  | nil => exact ⟨[], rfl⟩
  | cons first rest => exact ⟨rest ++ [hub], rfl⟩

theorem Links.IsRing.cut {links : Links Node} (ring : links.IsRing hub (before ++ after)) :
    links.Joined (leftOf hub before) (rightOf hub after) := by
  obtain ⟨front, left⟩ := before_split hub before
  obtain ⟨back, right⟩ := after_split hub after
  have joined := ring.joined
  rw [List.append_assoc, right, ← List.cons_append, left, List.append_assoc] at joined
  exact (List.isChain_append_cons_cons.mp joined).2.1

theorem Links.IsRing.next_hub {links : Links Node} (ring : links.IsRing hub items) :
    links.next hub = rightOf hub items :=
  (show links.IsRing hub ([] ++ items) from ring).cut.1

theorem Links.IsRing.prev_hub {links : Links Node} (ring : links.IsRing hub items) :
    links.prev hub = leftOf hub items := by
  have whole : links.IsRing hub (items ++ []) := by simpa using ring
  exact whole.cut.2

theorem Links.IsRing.next_eq {links : Links Node} (ring : links.IsRing hub (before ++ node :: after)) :
    links.next node = rightOf hub after := by
  have cut : links.IsRing hub ((before ++ [node]) ++ after) := by simpa using ring
  simpa using cut.cut.1

theorem Links.IsRing.prev_eq {links : Links Node} (ring : links.IsRing hub (before ++ node :: after)) :
    links.prev node = leftOf hub before :=
  ring.cut.2

/-- The neighbour in front of any member, or of the hub, is what the content says. -/
theorem Links.IsRing.prev_takeWhile [DecidableEq Node] {links : Links Node} (ring : links.IsRing hub items)
    (member : node ∈ hub :: items) : links.prev node = leftOf hub (items.takeWhile (· ≠ node)) := by
  by_cases listed : node ∈ items
  · obtain ⟨before, after, rfl, fresh⟩ := List.eq_append_cons_of_mem listed
    have stops : (before ++ node :: after).takeWhile (· ≠ node) = before := by
      rw [List.takeWhile_append_of_pos fun other inside => ?_]
      · simp
      · exact decide_eq_true fun same => fresh (same ▸ inside)
    rw [stops, ring.prev_eq]
  · obtain rfl : node = hub := (List.mem_cons.mp member).resolve_right listed
    have all : items.takeWhile (· ≠ node) = items :=
      List.takeWhile_eq_self_iff.mpr fun other inside => decide_eq_true fun same => listed (same ▸ inside)
    rw [all, ring.prev_hub]

theorem Links.IsRing.hub_notMem {links : Links Node} (ring : links.IsRing hub items) : hub ∉ items :=
  (List.nodup_cons.mp ring.nodup).1

theorem Links.IsRing.items_nodup {links : Links Node} (ring : links.IsRing hub items) : items.Nodup :=
  (List.nodup_cons.mp ring.nodup).2

theorem Links.IsRing.next_prev {links : Links Node} (ring : links.IsRing hub items) (member : node ∈ hub :: items) :
    links.next (links.prev node) = node := by
  rcases List.mem_cons.mp member with rfl | listed
  · have whole : links.IsRing node (items ++ []) := by simpa using ring
    rw [ring.prev_hub]
    exact whole.cut.1
  · obtain ⟨before, after, rfl⟩ := List.append_of_mem listed
    rw [ring.prev_eq]
    exact ring.cut.1

section Mirror

/-- The ring the other way round. -/
def Links.mirror (links : Links Node) : Links Node := ⟨links.prev, links.next⟩

theorem Links.IsRing.mirror {links : Links Node} (ring : links.IsRing hub items) :
    links.mirror.IsRing hub items.reverse where
  nodup := ((List.reverse_perm items).cons hub).nodup_iff.mpr ring.nodup
  joined := by
    have shape : hub :: (items.reverse ++ [hub]) = (hub :: (items ++ [hub])).reverse := by simp
    rw [shape, List.isChain_reverse]
    exact ring.joined.imp fun _ _ joint => ⟨joint.2, joint.1⟩

theorem Links.IsRing.prev_next {links : Links Node} (ring : links.IsRing hub items) (member : node ∈ hub :: items) :
    links.prev (links.next node) = node := by
  apply ring.mirror.next_prev
  simpa using member

private theorem iterate_chain {next : Node → Node} {path : List Node}
    (chain : (first :: path).IsChain fun left right => next left = right) :
    List.iterate next first (path.length + 1) = first :: path := by
  induction path generalizing first with
  | nil => rfl
  | cons second rest ih =>
    obtain ⟨onward, others⟩ := List.isChain_cons_cons.mp chain
    rw [List.length_cons, List.iterate, onward, ih others]

/-- Following `next` from the hub meets the content in order, and then the hub again. -/
theorem Links.IsRing.iterate_next {links : Links Node} (ring : links.IsRing hub items) :
    List.iterate links.next (links.next hub) (items.length + 1) = items ++ [hub] := by
  have around : List.iterate links.next hub ((items ++ [hub]).length + 1) = hub :: (items ++ [hub]) :=
    iterate_chain (ring.joined.imp fun _ _ joint => joint.1)
  rw [List.iterate, List.length_append, List.length_singleton] at around
  exact (List.cons_eq_cons.mp around).2

theorem Links.IsRing.iterate_prev {links : Links Node} (ring : links.IsRing hub items) :
    List.iterate links.prev (links.prev hub) (items.length + 1) = items.reverse ++ [hub] := by
  have back := ring.mirror.iterate_next
  rwa [List.length_reverse] at back

end Mirror

/-- A hub that is its own neighbour is the empty ring. -/
theorem Links.isRing_nil {links : Links Node} (next : links.next hub = hub) (prev : links.prev hub = hub) :
    links.IsRing hub [] where
  nodup := List.nodup_singleton hub
  joined := List.isChain_pair.mpr ⟨next, prev⟩

section Insert

variable [DecidableEq Node]

def Links.setNext (links : Links Node) (node value : Node) : Links Node :=
  { links with next := Function.update links.next node value }

def Links.setPrev (links : Links Node) (node value : Node) : Links Node :=
  { links with prev := Function.update links.prev node value }

/-- The four pointer writes that put `item` in front of `spot`. -/
def Links.insertBefore (links : Links Node) (spot item : Node) : Links Node :=
  let links := links.setNext item spot
  let links := links.setPrev item (links.prev spot)
  let links := links.setPrev (links.next item) item
  links.setNext (links.prev item) item

/-- The four pointer writes that put `item` behind `spot`. -/
def Links.insertAfter (links : Links Node) (spot item : Node) : Links Node :=
  let links := links.setNext item (links.next spot)
  let links := links.setPrev item spot
  let links := links.setPrev (links.next item) item
  links.setNext (links.prev item) item

/-- `item` between two given neighbours, every other link as it was. -/
def Links.splice (links : Links Node) (left item right : Node) : Links Node where
  next := Function.update (Function.update links.next item right) left item
  prev := Function.update (Function.update links.prev item left) right item

theorem Links.insertBefore_eq_splice (links : Links Node) (apart : item ≠ spot) :
    links.insertBefore spot item = links.splice (links.prev spot) item spot := by
  simp [Links.insertBefore, Links.splice, Links.setNext, Links.setPrev, apart]

theorem Links.insertAfter_eq_splice (links : Links Node) (apart : item ≠ links.next spot) :
    links.insertAfter spot item = links.splice spot item (links.next spot) := by
  simp [Links.insertAfter, Links.splice, Links.setNext, Links.setPrev, apart]

private theorem joined_elsewhere {links : Links Node} (cut : links.Joined left right)
    (joined : links.Joined a b) (other : b ≠ right) (source : a ≠ item) (target : b ≠ item) :
    (links.splice left item right).Joined a b := by
  have apart : a ≠ left := by
    intro same
    subst same
    exact other (joined.1.symm.trans cut.1)
  constructor
  · simpa [Links.splice, Function.update_of_ne apart, Function.update_of_ne source] using joined.1
  · simpa [Links.splice, Function.update_of_ne other, Function.update_of_ne target] using joined.2

/-- Splicing a fresh node into a cut of the ring puts it into the list at that cut,
also where the two neighbours are the hub itself. -/
theorem Links.IsRing.splice {links : Links Node} (ring : links.IsRing hub (before ++ after))
    (fresh : item ∉ hub :: (before ++ after)) :
    (links.splice (leftOf hub before) item (rightOf hub after)).IsRing hub (before ++ item :: after) := by
  obtain ⟨front, leftSplit⟩ := before_split hub before
  obtain ⟨back, rightSplit⟩ := after_split hub after
  have cut := ring.cut
  generalize leftOf hub before = left at *
  generalize rightOf hub after = right at *
  have joined := ring.joined
  rw [List.append_assoc, rightSplit, ← List.cons_append, leftSplit, List.append_assoc] at joined
  obtain ⟨chainFront, -, chainBack⟩ := List.isChain_append_cons_cons.mp joined
  have nodup : (hub :: (before ++ after)).Nodup := ring.nodup
  have freshFront : item ∉ front ++ [left] := by
    rw [← leftSplit]
    simp only [List.mem_cons, List.mem_append, not_or] at fresh ⊢
    exact ⟨fresh.1, fresh.2.1⟩
  have freshBack : item ∉ right :: back := by
    rw [← rightSplit]
    simp only [List.mem_cons, List.mem_append, not_or, List.not_mem_nil, not_false_eq_true, and_true]
      at fresh ⊢
    exact ⟨fresh.2.2, fresh.1⟩
  have apartLeft : item ≠ left := by
    rintro rfl
    exact freshFront (by simp)
  have apartRight : item ≠ right := by
    rintro rfl
    exact freshBack (by simp)
  have nodupBack : (right :: back).Nodup := by
    rw [← rightSplit]
    exact List.nodup_append_comm.mp
      (nodup.sublist (List.cons_sublist_cons.mpr (List.sublist_append_right before after)))
  refine ⟨?_, ?_⟩
  · have moved : (hub :: (before ++ item :: after)).Perm (item :: hub :: (before ++ after)) :=
      (List.Perm.cons hub List.perm_middle).trans (List.Perm.swap item hub _)
    exact moved.nodup_iff.mpr (List.nodup_cons.mpr ⟨fresh, nodup⟩)
  · have shape : hub :: ((before ++ item :: after) ++ [hub]) = front ++ left :: item :: right :: back := by
      rw [List.append_assoc, List.cons_append, rightSplit, ← List.cons_append, leftSplit, List.append_assoc]
      rfl
    rw [shape]
    have outside : right ∉ before := by
      intro inBefore
      have member : right ∈ after ++ [hub] := by rw [rightSplit]; exact List.mem_cons_self ..
      rcases List.mem_append.mp member with inAfter | isHub
      · exact List.disjoint_of_nodup_append (List.nodup_cons.mp nodup).2 inBefore inAfter
      · have same : right = hub := by simpa using isHub
        exact (List.nodup_cons.mp nodup).1 (List.mem_append_left _ (same ▸ inBefore))
    have tailFront : (front ++ [left]).tail = before := by rw [← leftSplit]; rfl
    refine List.isChain_append_cons_cons.mpr ⟨?_, ?_, List.isChain_cons_cons.mpr ⟨?_, ?_⟩⟩
    · apply chainFront.imp_of_mem_tail_imp
      intro a b source target joint
      refine joined_elsewhere cut joint ?_ ?_ ?_
      · rintro rfl
        exact outside (tailFront ▸ target)
      · rintro rfl
        exact freshFront source
      · rintro rfl
        exact freshFront (List.mem_of_mem_tail target)
    · constructor <;> simp [Links.splice, apartRight]
    · constructor <;> simp [Links.splice, apartLeft]
    · apply chainBack.imp_of_mem_tail_imp
      intro a b source target joint
      refine joined_elsewhere cut joint ?_ ?_ ?_
      · rintro rfl
        exact (List.nodup_cons.mp nodupBack).1 target
      · rintro rfl
        exact freshBack source
      · rintro rfl
        exact freshBack (List.mem_of_mem_tail target)

theorem Links.IsRing.insertBefore {links : Links Node} (ring : links.IsRing hub (before ++ after))
    (fresh : item ∉ hub :: (before ++ after)) :
    (links.insertBefore (rightOf hub after) item).IsRing hub (before ++ item :: after) := by
  have apart : item ≠ rightOf hub after := by
    rintro rfl
    exact fresh (rightOf_mem hub before after)
  rw [links.insertBefore_eq_splice apart, ring.cut.2]
  exact ring.splice fresh

theorem Links.IsRing.insertAfter {links : Links Node} (ring : links.IsRing hub (before ++ after))
    (fresh : item ∉ hub :: (before ++ after)) :
    (links.insertAfter (leftOf hub before) item).IsRing hub (before ++ item :: after) := by
  have apart : item ≠ links.next (leftOf hub before) := by
    rw [ring.cut.1]
    rintro rfl
    exact fresh (rightOf_mem hub before after)
  rw [links.insertAfter_eq_splice apart, ring.cut.1]
  exact ring.splice fresh

omit [DecidableEq Node] in
private theorem insertIdx_cut (before after : List Node) (item : Node) :
    (before ++ after).insertIdx before.length item = before ++ item :: after := by
  induction before with
  | nil => rfl
  | cons node rest ih => rw [List.cons_append, List.length_cons, List.insertIdx_succ_cons, ih, List.cons_append]

/-- Inserting in front of a node, or of the hub, which stands behind the last one. -/
theorem Links.IsRing.insertBefore_spot {links : Links Node} (ring : links.IsRing hub items)
    (spot : node ∈ hub :: items) (fresh : item ∉ hub :: items) :
    (links.insertBefore node item).IsRing hub (items.insertIdx (items.idxOf node) item) := by
  by_cases listed : node ∈ items
  · obtain ⟨before, after, rfl, first⟩ := List.eq_append_cons_of_mem listed
    rw [List.idxOf_append_of_notMem first, List.idxOf_cons_self, Nat.add_zero, insertIdx_cut]
    exact ring.insertBefore fresh
  · obtain rfl := (List.mem_cons.mp spot).resolve_right listed
    rw [List.idxOf_of_notMem listed, List.insertIdx_length_self]
    have whole : links.IsRing node (items ++ []) := by simpa using ring
    exact whole.insertBefore (by simpa using fresh)

/-- Inserting behind a node, or behind the hub, which stands in front of the first one. -/
theorem Links.IsRing.insertAfter_spot {links : Links Node} (ring : links.IsRing hub items)
    (spot : node ∈ hub :: items) (fresh : item ∉ hub :: items) :
    (links.insertAfter node item).IsRing hub (items.insertIdx ((hub :: items).idxOf node) item) := by
  by_cases same : node = hub
  · subst same
    rw [List.idxOf_cons_self]
    exact (show links.IsRing node ([] ++ items) from ring).insertAfter fresh
  · have listed : node ∈ items := (List.mem_cons.mp spot).resolve_left same
    obtain ⟨before, after, rfl, first⟩ := List.eq_append_cons_of_mem listed
    have cut : links.IsRing hub ((before ++ [node]) ++ after) := by simpa using ring
    have behind := cut.insertAfter (by simpa using fresh)
    rw [leftOf_append] at behind
    rw [List.idxOf_cons_ne _ (Ne.symm same), List.idxOf_append_of_notMem first, List.idxOf_cons_self, List.append_cons]
    have index : (before.length + 0).succ = (before ++ [node]).length := by simp
    rw [index, insertIdx_cut]
    exact behind

end Insert

end LinkedRing
