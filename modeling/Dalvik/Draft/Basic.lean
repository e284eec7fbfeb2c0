import Dalvik.Listing.Relaxation
import Dalvik.Outline.Basic

/-!
# Drafts

A draft is a method that can be edited.  Edits only change the listing; what they leave to be done
before the method can be encoded (longer jumps, aligned payloads, switch tables that lost their
switch) is done by relaxation.  A draft therefore remembers whether it is relaxed, and if it is, to
which switch each table belongs.
-/

namespace Dalvik

/-- A method that can be edited. -/
structure Draft where
  /-- Identity of the draft, stamped on its labels.  A copy has the identity of its source, so that
  labels issued before copying serve both. -/
  id : Nat
  /-- Number of registers. -/
  registers : UInt16
  /-- The instructions, and what is attached to them. -/
  listing : Listing := {}
  /-- The exception handlers in order. -/
  tries : Array (TryEntry Label) := #[]
  /-- The owners of the switch tables, if the draft is relaxed. -/
  owners? : Option Owners := some []
  deriving DecidableEq, Inhabited

namespace Draft

/-- The draft of a method with nothing in it. -/
def new (id : Nat) (registers : UInt16) : Draft := { id, registers }

/-- Number of instructions, which is also the position of the end. -/
def size (d : Draft) : Nat := d.listing.size

/-- Whether there are no instructions. -/
def isEmpty (d : Draft) : Bool := d.size == 0

/-- Size in code units, the instructions being as they are. -/
def units (d : Draft) : Nat := d.listing.units

/-- The instruction at a position as it is. -/
def instruction? (d : Draft) (index : Nat) : Option (Instruction Label) :=
  d.listing.instruction? index

/-- Whether relaxation has something to look at. -/
def needsRelaxation (d : Draft) : Bool := d.owners?.isNone

/-- The instruction at a position, which must hold one. -/
def instructionAt (d : Draft) (index : Nat) : Except Error (Instruction Label) :=
  match d.instruction? index with
  | some i => .ok i
  | none => .error (.indexOutOfBounds index d.size)

/-- Refuses positions past the end. -/
def checkIndex (d : Draft) (index : Nat) : Except Error Unit :=
  if index ≤ d.size then .ok () else .error (.indexOutOfBounds index d.size)

/-- Refuses labels that the draft did not issue. -/
def checkLabel (d : Draft) (label : Label) : Except Error Unit :=
  if label.draft = d.id && label.number < d.listing.issued then .ok ()
  else .error (.unknownLabel label)

/-- Refuses invalid instructions and foreign labels. -/
def checkInstruction (d : Draft) (i : Instruction Label) : Except Error Unit := do
  i.validate
  i.targets.forM d.checkLabel

/-- The position of a label, given the table of positions. -/
def locateIn (d : Draft) (positions : Array (Option Nat)) (label : Label) : Except Error Nat :=
  if label.draft = d.id then
    match positions[label.number]? with
    | none => .error (.unknownLabel label)
    | some none => .error (.unplacedLabel label)
    | some (some index) => .ok index
  else .error (.unknownLabel label)

/-- The position of a label. -/
def locate (d : Draft) (label : Label) : Except Error Nat := d.locateIn d.listing.positions label

/-- The outline that the labels currently spell out. -/
def outline (d : Draft) : Except Error Outline := do
  let positions := d.listing.positions
  let instructions ← d.listing.instructions.mapM fun i => i.mapTargetsM (d.locateIn positions)
  let tries ← d.tries.toList.mapM fun entry => entry.mapM (d.locateIn positions)
  return ⟨d.registers, instructions, tries, d.listing.debugItems⟩

/-- The draft with its listing relaxed.  Before anything is repaired, every label in use must be
placed and every switch must have found its table. -/
def relaxed (d : Draft) : Except Error Draft :=
  match d.owners? with
  | some _ => .ok d
  | none => do
    let locate := d.locateIn d.listing.positions
    d.listing.instructions.forM fun i => i.targets.forM fun label => discard (locate label)
    d.tries.toList.forM fun entry => entry.places.forM fun label => discard (locate label)
    let owners ← d.listing.findOwners locate
    let settled := Bound.settle ⟨d.listing, owners⟩
    return { d with listing := settled.listing, owners? := some settled.owners }

end Draft

end Dalvik
