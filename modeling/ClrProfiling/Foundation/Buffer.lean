import Mathlib

/-! A byte buffer of fixed size: writes outside it are refused, bytes never written
keep whatever the storage held before. -/

structure Buffer where
  size : Nat
  byte : Nat → UInt8

namespace Buffer

/-- The `length` bytes from `start` on. -/
def read (buffer : Buffer) (start : Nat) : (length : Nat) → List UInt8
  | 0 => []
  | length + 1 => buffer.byte start :: buffer.read (start + 1) length

/-- Overwrite the bytes from `start` on, or refuse where they do not fit. -/
def write (buffer : Buffer) (start : Nat) (bytes : List UInt8) : Option Buffer :=
  if start + bytes.length ≤ buffer.size then
    some { buffer with
      byte := fun i => if start ≤ i then (bytes[i - start]?).getD (buffer.byte i) else buffer.byte i }
  else none

@[simp] theorem length_read (buffer : Buffer) (start length : Nat) :
    (buffer.read start length).length = length := by
  induction length generalizing start with
  | zero => rfl
  | succ length ih => simp [read, ih]

theorem read_append (buffer : Buffer) (start first second : Nat) :
    buffer.read start (first + second) = buffer.read start first ++ buffer.read (start + first) second := by
  induction first generalizing start with
  | zero => simp [read]
  | succ first ih =>
    have count : first + 1 + second = (first + second) + 1 := by omega
    rw [count, read, read, ih (start + 1), List.cons_append, Nat.add_right_comm start 1 first,
      Nat.add_assoc start first 1]

theorem read_congr {left right : Buffer}
    (same : ∀ i, start ≤ i → i < start + length → left.byte i = right.byte i) :
    left.read start length = right.read start length := by
  induction length generalizing start with
  | zero => rfl
  | succ length ih =>
    rw [read, read, same start (Nat.le_refl _) (by omega)]
    exact congrArg _ (ih fun i lower upper => same i (by omega) (by omega))

theorem write_isSome_iff (buffer : Buffer) (start : Nat) (bytes : List UInt8) :
    (∃ after, buffer.write start bytes = some after) ↔ start + bytes.length ≤ buffer.size := by
  unfold write
  split <;> simp_all

theorem write_bound {buffer after : Buffer} (run : buffer.write start bytes = some after) :
    start + bytes.length ≤ buffer.size :=
  (write_isSome_iff ..).mp ⟨after, run⟩

theorem write_size {buffer after : Buffer} (run : buffer.write start bytes = some after) :
    after.size = buffer.size := by
  unfold write at run
  split at run
  · cases run; rfl
  · cases run

/-- Bytes outside the written range stay as they were. -/
theorem write_elsewhere {buffer after : Buffer} (run : buffer.write start bytes = some after)
    (outside : i < start ∨ start + bytes.length ≤ i) : after.byte i = buffer.byte i := by
  unfold write at run
  split at run
  · cases run
    dsimp only
    split
    · rw [List.getElem?_eq_none (by omega)]
      rfl
    · rfl
  · cases run

/-- Two adjacent writes are one. -/
theorem write_append (buffer : Buffer) (start : Nat) (first second : List UInt8) :
    buffer.write start (first ++ second) =
      (buffer.write start first).bind fun after => after.write (start + first.length) second := by
  unfold write
  by_cases whole : start + (first ++ second).length ≤ buffer.size
  · have bound := whole
    rw [List.length_append] at bound
    rw [if_pos whole, if_pos (by omega), Option.bind_some, if_pos (by dsimp only; omega)]
    refine congrArg (fun byte => some { buffer with byte }) (funext fun i => ?_)
    dsimp only
    by_cases early : start ≤ i
    · by_cases late : start + first.length ≤ i
      · rw [if_pos early, if_pos late, if_pos early, List.getElem?_append_right (by omega),
          List.getElem?_eq_none (show first.length ≤ i - start by omega), Option.getD_none, Nat.sub_add_eq]
      · rw [if_pos early, if_neg late, if_pos early, List.getElem?_append_left (by omega)]
    · rw [if_neg early, if_neg (by omega), if_neg early]
  · have bound := whole
    rw [List.length_append] at bound
    rw [if_neg whole]
    by_cases fits : start + first.length ≤ buffer.size
    · rw [if_pos fits, Option.bind_some, if_neg (by dsimp only; omega)]
    · rw [if_neg fits, Option.bind_none]

/-- Reading back what was written. -/
theorem write_read {buffer after : Buffer} (run : buffer.write start bytes = some after) :
    after.read start bytes.length = bytes := by
  have content : ∀ i (bound : i < bytes.length), after.byte (start + i) = bytes[i] := by
    intro i bound
    unfold write at run
    split at run
    · cases run
      simp [bound]
    · cases run
  clear run
  induction bytes generalizing start with
  | nil => rfl
  | cons byte rest ih =>
    rw [List.length_cons, read]
    have first := content 0 (by simp)
    have shifted : ∀ i (bound : i < rest.length), after.byte (start + 1 + i) = rest[i] := by
      intro i bound
      rw [Nat.add_right_comm]
      exact content (i + 1) (by simpa using bound)
    rw [ih shifted]
    simpa using first

end Buffer
