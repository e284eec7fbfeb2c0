import Dalvik.Layout

/-!
# Walking through a layout

A cursor walks through a layout from both ends.  It keeps the entries that it has not come to and
the number of those that were taken from the front, and tells the position of an element from these
two.
-/

namespace Dalvik

namespace Layout

variable {α : Type}

/-- The end from which an element is taken. -/
inductive End where
  | front
  | back
  deriving DecidableEq

/-- The entries that are left of a layout. -/
structure Cursor (α : Type) where
  /-- The entries in between, which no end has come to. -/
  rest : List (Nat × α)
  /-- Number of entries taken from the front. -/
  taken : Nat

/-- The cursor that has all of a layout in front of it. -/
def cursor (l : Layout α) : Cursor α := ⟨l.entries.toList, 0⟩

namespace Cursor

/-- Takes the first element that is left. -/
def next (c : Cursor α) : Option ((Nat × Nat × α) × Cursor α) :=
  match c.rest with
  | [] => none
  | (offset, elem) :: rest => some ((offset, c.taken, elem), ⟨rest, c.taken + 1⟩)

/-- Takes the last element that is left.  The elements in front of it are those that were taken from
the front, and those that are still left. -/
def nextBack (c : Cursor α) : Option ((Nat × Nat × α) × Cursor α) :=
  match c.rest.getLast? with
  | none => none
  | some (offset, elem) =>
    let rest := c.rest.dropLast
    some ((offset, c.taken + rest.length, elem), ⟨rest, c.taken⟩)

/-- Takes an element from one end. -/
def advance (c : Cursor α) : End → Option ((Nat × Nat × α) × Cursor α)
  | .front => c.next
  | .back => c.nextBack

/-- The elements that are left, each with its offset and its position. -/
def left (c : Cursor α) : List (Nat × Nat × α) :=
  (c.rest.zipIdx c.taken).map fun ((offset, elem), index) => (offset, index, elem)

variable {c c' : Cursor α} {item : Nat × Nat × α}

/-- From the front comes the first of the elements that are left. -/
theorem left_of_next (h : c.next = some (item, c')) : c.left = item :: c'.left := by
  obtain ⟨rest, taken⟩ := c
  cases rest with
  | nil => cases h
  | cons entry rest =>
    cases h
    rfl

theorem nextBack_concat (rest : List (Nat × α)) (offset : Nat) (elem : α) (taken : Nat) :
    nextBack ⟨rest ++ [(offset, elem)], taken⟩ =
      some ((offset, taken + rest.length, elem), ⟨rest, taken⟩) := by
  simp only [nextBack, List.getLast?_concat, List.dropLast_concat]

/-- From the back comes the last of the elements that are left. -/
theorem left_of_nextBack (h : c.nextBack = some (item, c')) : c.left = c'.left ++ [item] := by
  obtain ⟨rest, taken⟩ := c
  rcases List.eq_nil_or_concat rest with rfl | ⟨rest, ⟨offset, elem⟩, rfl⟩
  · cases h
  · rw [List.concat_eq_append, nextBack_concat] at h
    cases h
    simp [left, List.zipIdx_append]

/-- Nothing comes if nothing is left. -/
theorem advance_eq_none_iff (c : Cursor α) (e : End) : c.advance e = none ↔ c.left = [] := by
  obtain ⟨rest, taken⟩ := c
  cases e with
  | front => cases rest <;> simp [advance, next, left]
  | back =>
    rcases List.eq_nil_or_concat rest with rfl | ⟨rest, ⟨offset, elem⟩, rfl⟩
    · simp [advance, nextBack, left]
    · simp [advance, nextBack_concat, left]

/-- Taking an element leaves fewer. -/
theorem length_left_lt {e : End} (h : c.advance e = some (item, c')) :
    c'.left.length < c.left.length := by
  cases e with
  | front => simp [left_of_next h]
  | back => simp [left_of_nextBack h]

/-- Takes all elements from one end. -/
def collect (c : Cursor α) (e : End) : List (Nat × Nat × α) :=
  match _h : c.advance e with
  | none => []
  | some (item, c') => item :: collect c' e
termination_by c.left.length
decreasing_by exact length_left_lt _h

/-- Walking forwards shows the elements in order. -/
theorem collect_front (c : Cursor α) : c.collect .front = c.left := by
  fun_induction collect c .front with
  | case1 c h => exact ((advance_eq_none_iff c .front).1 h).symm
  | case2 c item c' h ih => rw [ih, left_of_next h]

/-- Walking backwards shows the same elements in the opposite order. -/
theorem collect_back (c : Cursor α) : c.collect .back = c.left.reverse := by
  fun_induction collect c .back with
  | case1 c h => rw [(advance_eq_none_iff c .back).1 h, List.reverse_nil]
  | case2 c item c' h ih => rw [ih, left_of_nextBack h, List.reverse_concat]

end Cursor

/-- The cursor has all elements of the layout left. -/
theorem left_cursor (l : Layout α) : l.cursor.left = l.toList := rfl

end Layout

end Dalvik
