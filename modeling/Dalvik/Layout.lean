import Dalvik.Bisection
import Dalvik.Text.Hex

/-!
# Layouts

A layout places elements of different widths one behind the other, so that the offset of an element
is the sum of the widths before it.  Code is laid out this way: the address of an instruction is
the number of code units before it, not its position in the list.
-/

namespace Dalvik

/-- Elements that take up room in a layout. -/
class HasWidth (α : Type) where
  /-- The room that an element takes up. -/
  width : α → Nat

/-- Elements one behind the other. -/
structure Layout (α : Type) where
  /-- The elements with their offsets. -/
  entries : Array (Nat × α)
  /-- Where the next element goes. -/
  width : Nat
  deriving DecidableEq

namespace Layout

variable {α : Type}

/-- What is found at an offset. -/
inductive Hit (α : Type) where
  /-- An element starts here. -/
  | start (index : Nat) (elem : α)
  /-- The offset lies strictly within an element. -/
  | inside (index : Nat)
  /-- The offset is at or past the end. -/
  | past
  deriving DecidableEq

/-- The layout of no elements. -/
def empty : Layout α := ⟨#[], 0⟩

instance : Inhabited (Layout α) := ⟨empty⟩

/-- Number of elements. -/
def size (l : Layout α) : Nat := l.entries.size

/-- Whether there are no elements. -/
def isEmpty (l : Layout α) : Bool := l.entries.isEmpty

/-- Places an element behind all others. -/
def push [HasWidth α] (l : Layout α) (elem : α) : Layout α :=
  ⟨l.entries.push (l.width, elem), l.width + HasWidth.width elem⟩

/-- Places the elements of a list one behind the other. -/
def ofList [HasWidth α] (elems : List α) : Layout α := elems.foldl push empty

/-- The elements in order. -/
def elems (l : Layout α) : List α := l.entries.toList.map (·.2)

/-- The elements in order, each with its offset and its position. -/
def toList (l : Layout α) : List (Nat × Nat × α) :=
  l.entries.toList.zipIdx.map fun ((offset, elem), index) => (offset, index, elem)

/-- The element at a position, with its offset. -/
def get? (l : Layout α) (index : Nat) : Option (Nat × α) := l.entries[index]?

/-- The offset of the element at a position; positions past the last element are at the end. -/
def offset (l : Layout α) (index : Nat) : Nat :=
  match l.entries[index]? with
  | some (start, _) => start
  | none => l.width

/-- Whether the element at a position starts at or before `offset`. -/
def startsBy (l : Layout α) (offset index : Nat) : Bool :=
  match l.entries[index]? with
  | some (start, _) => start ≤ offset
  | none => false

/-- What is found at an offset.  Offsets increase with the position, so the last element that starts
at or before `offset` is found by bisection. -/
def locate (l : Layout α) (offset : Nat) : Hit α :=
  match bisect (l.startsBy offset) 0 l.size with
  | 0 => .past
  | index + 1 =>
    match l.entries[index]? with
    | none => .past
    | some (start, elem) =>
      if start = offset then .start index elem
      else if l.width ≤ offset then .past
      else .inside index

/-! ### What pushing does -/

@[simp] theorem width_push [HasWidth α] (l : Layout α) (elem : α) :
    (l.push elem).width = l.width + HasWidth.width elem := rfl

@[simp] theorem elems_push [HasWidth α] (l : Layout α) (elem : α) :
    (l.push elem).elems = l.elems ++ [elem] := by
  simp [push, elems]

/-- A layout holds the elements that it was made of. -/
@[simp] theorem elems_ofList [HasWidth α] (elems : List α) : (ofList elems).elems = elems := by
  have : ∀ l : Layout α, (elems.foldl push l).elems = l.elems ++ elems := by
    -- the elements in front are arbitrary, so that the induction goes through
    induction elems with
    | nil => simp
    | cons elem rest ih => intro l; simp [ih]
  simpa [ofList, empty, Layout.elems] using this empty

/-- The layout as text, the elements written by `text`. -/
def render (text : α → String) (l : Layout α) : String :=
  let entry := fun (offset, elem) => Text.hexAddress offset ++ ": " ++ text elem
  "[" ++ String.intercalate ", " (l.entries.toList.map entry) ++ "]"

end Layout

end Dalvik
