import Dalvik.Attached
import Dalvik.Debug
import Dalvik.Instruction.Basic
import Dalvik.Label

/-!
# Listings

A listing is the text of a method while it is edited: the instructions in order, and at each of them
and at the end a point to which labels and debug items are attached.  Branches name labels, so an
edit never has to touch any instruction but the one it is about.

Labels are stored only where they stand.  The table of positions (`Listing.positions`) and the table
of addresses (`Listing.addresses`) are computed when they are needed.
-/

namespace Dalvik

/-- What is attached to a position. -/
structure Point where
  /-- The labels that stand here. -/
  labels : Attached Label := ∅
  /-- The debug items pinned here. -/
  items : Attached DebugItem := ∅
  deriving DecidableEq, Inhabited

instance : EmptyCollection Point := ⟨{}⟩

/-- The point that is left when the instruction at `removed` goes and `next` follows: everything
moves on, ahead of what is there already. -/
def Point.mergeInto (removed next : Point) : Point where
  labels := (removed.labels.mergeInto next.labels).2
  items := (removed.items.mergeInto next.items).2

/-- An instruction with what is attached to it. -/
structure Slot where
  /-- The instruction. -/
  instruction : Instruction Label
  /-- What is attached to it. -/
  point : Point
  deriving DecidableEq, Inhabited

/-- The text of a method while it is edited. -/
structure Listing where
  /-- The instructions in order. -/
  slots : Array Slot := #[]
  /-- What is attached to the end of the method. -/
  tail : Point := ∅
  /-- Number of labels issued so far, placed or not. -/
  issued : Nat := 0
  deriving DecidableEq, Inhabited

namespace Listing

/-- Number of instructions, which is also the position of the end. -/
def size (l : Listing) : Nat := l.slots.size

/-- The instruction at a position. -/
def instruction? (l : Listing) (index : Nat) : Option (Instruction Label) :=
  l.slots[index]?.map (·.instruction)

/-- The instructions in order. -/
def instructions (l : Listing) : List (Instruction Label) := l.slots.toList.map (·.instruction)

/-- The points in order, that of the end being the last. -/
def points (l : Listing) : List Point := l.slots.toList.map (·.point) ++ [l.tail]

/-- What is attached to a position. -/
def point (l : Listing) (index : Nat) : Point :=
  match l.slots[index]? with
  | some slot => slot.point
  | none => l.tail

/-- Size in code units. -/
def units (l : Listing) : Nat := l.slots.foldl (fun sum slot => sum + slot.instruction.units) 0

/-- The address of every position, the end included. -/
def addresses (l : Listing) : Array Nat :=
  let (starts, stop) := l.slots.foldl
    (fun (starts, address) slot => (starts.push address, address + slot.instruction.units))
    (#[], 0)
  starts.push stop

/-- The position of every label by its number; a label that stands nowhere has none. -/
def positions (l : Listing) : Array (Option Nat) :=
  l.points.zipIdx.foldl
    (fun table (point, index) =>
      point.labels.toList.foldl
        (fun table label => table.setIfInBounds label.number (some index)) table)
    (Array.replicate l.issued none)

/-- The position of the instruction that covers an address, counted from `index` on, where the
instructions from there on are given; the end if the address is past them. -/
def covering (index : Nat) : List (Instruction Label) → Nat → Nat
  | [], _ => index
  | i :: rest, address =>
    if address < i.units then index else covering (index + 1) rest (address - i.units)

@[simp] theorem length_instructions (l : Listing) : l.instructions.length = l.size := by
  simp [instructions, size]

@[simp] theorem length_points (l : Listing) : l.points.length = l.size + 1 := by
  simp [points, size]

@[simp] theorem getElem?_instructions (l : Listing) (index : Nat) :
    l.instructions[index]? = l.instruction? index := by
  simp [instructions, instruction?]

/-! ### Edits

Positions that do not exist are left alone: the checks come before the edit. -/

/-- Changes what is attached to a position. -/
def modifyPoint (l : Listing) (index : Nat) (f : Point → Point) : Listing :=
  if index < l.slots.size then
    { l with slots := l.slots.modify index fun slot => { slot with point := f slot.point } }
  else { l with tail := f l.tail }

/-- Adds an instruction at the end.  It takes over what was attached to the end. -/
def append (l : Listing) (i : Instruction Label) : Listing :=
  { l with slots := l.slots.push ⟨i, l.tail⟩, tail := ∅ }

@[simp] theorem instructions_append (l : Listing) (i : Instruction Label) :
    (l.append i).instructions = l.instructions ++ [i] := by
  simp [append, instructions]

@[simp] theorem points_append (l : Listing) (i : Instruction Label) :
    (l.append i).points = l.points ++ [∅] := by
  simp [append, points, EmptyCollection.emptyCollection]

/-- Adds an instruction in front of a position, with nothing attached.  At the end this is the same
as appending. -/
def insertAt (l : Listing) (index : Nat) (i : Instruction Label) : Listing :=
  if index < l.slots.size then { l with slots := l.slots.insertIdxIfInBounds index ⟨i, ∅⟩ }
  else l.append i

/-- Exchanges the instruction at a position for another. -/
def replaceAt (l : Listing) (index : Nat) (i : Instruction Label) : Listing :=
  { l with slots := l.slots.modify index fun slot => { slot with instruction := i } }

/-- Removes the instruction at a position.  What was attached to it goes to the next position. -/
def removeAt (l : Listing) (index : Nat) : Listing :=
  match l.slots[index]? with
  | none => l
  | some removed =>
    { l with slots := l.slots.eraseIdxIfInBounds index }.modifyPoint index removed.point.mergeInto

/-- Exchanges two instructions; what is attached stays where it is. -/
def swapAt (l : Listing) (index₁ index₂ : Nat) : Listing :=
  match l.instruction? index₁, l.instruction? index₂ with
  | some i₁, some i₂ => (l.replaceAt index₁ i₂).replaceAt index₂ i₁
  | _, _ => l

/-- Makes a label stand at a position. -/
def mark (l : Listing) (index : Nat) (label : Label) : Listing :=
  l.modifyPoint index fun point => { point with labels := point.labels.push label }

/-- Pins a debug item to a position. -/
def pin (l : Listing) (index : Nat) (item : DebugItem) : Listing :=
  l.modifyPoint index fun point => { point with items := point.items.push item }

/-- Keeps the debug items that satisfy a predicate. -/
def retainItems (l : Listing) (keep : DebugItem → Bool) : Listing :=
  let retain := fun point : Point => { point with items := point.items.retain keep }
  { l with
    slots := l.slots.map fun slot => { slot with point := retain slot.point }
    tail := retain l.tail }

/-- The debug items in order, each with its position. -/
def debugItems (l : Listing) : List (Nat × DebugItem) :=
  l.points.zipIdx.flatMap fun (point, index) => point.items.toList.map (index, ·)

end Listing

end Dalvik
