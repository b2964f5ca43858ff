import Mathlib

/-! Labels that grow along a list: any two labellings of a list that grow along it order
its members alike. -/

namespace Ordering

universe u v w

variable {Item : Type u} {First : Type v} {Second : Type w} [LinearOrder First] [LinearOrder Second]

/-- The labels of a list grow along it. -/
def Grows (label : Item → First) (items : List Item) : Prop := items.Pairwise fun p q => label p < label q

variable {label : Item → First} {label' : Item → Second} {items : List Item}

theorem Grows.sublist (grows : Grows label items) (part : shorter.Sublist items) : Grows label shorter :=
  List.Pairwise.sublist part grows

theorem Grows.head_lt (grows : Grows label (item :: rest)) (member : other ∈ rest) : label item < label other :=
  List.rel_of_pairwise_cons grows member

theorem Grows.tail (grows : Grows label (item :: rest)) : Grows label rest := List.Pairwise.of_cons grows

theorem Grows.head_le (grows : Grows label (item :: rest)) (member : other ∈ item :: rest) :
    label item ≤ label other := by
  rcases List.mem_cons.mp member with rfl | later
  · exact le_refl _
  · exact le_of_lt (grows.head_lt later)

theorem Grows.behind (grows : Grows label (before ++ after)) : Grows label after :=
  grows.sublist (List.sublist_append_right ..)

theorem Grows.append_lt (grows : Grows label (before ++ after)) (early : p ∈ before) (late : q ∈ after) :
    label p < label q :=
  (List.pairwise_append.mp grows).2.2 p early q late

/-- Two labellings that grow along a list order its members alike. -/
theorem Grows.lt_iff (grows : Grows label items) (grows' : Grows label' items) (first : p ∈ items)
    (second : q ∈ items) :
    label p < label q ↔ label' p < label' q := by
  let Alike (p q : Item) : Prop := (label p < label q ↔ label' p < label' q) ∧ (label q < label p ↔ label' q < label' p)
  have symmetric : Std.Symm Alike := ⟨fun _ _ both => ⟨both.2, both.1⟩⟩
  have alike : items.Pairwise Alike := by
    refine List.Pairwise.imp ?_ (List.Pairwise.and grows grows')
    rintro p q ⟨less, less'⟩
    exact ⟨iff_of_true less less', iff_of_false less.asymm less'.asymm⟩
  have reflexive : ∀ p ∈ items, Alike p p := fun p _ =>
    ⟨iff_of_false (lt_irrefl _) (lt_irrefl _), iff_of_false (lt_irrefl _) (lt_irrefl _)⟩
  exact (alike.forall_of_forall reflexive first second).1

theorem Grows.le_iff (grows : Grows label items) (grows' : Grows label' items) (first : p ∈ items)
    (second : q ∈ items) :
    label p ≤ label q ↔ label' p ≤ label' q := by
  rw [← not_lt, ← not_lt, grows.lt_iff grows' second first]

end Ordering
