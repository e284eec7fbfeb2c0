import Dalvik.Draft.Edit
import Dalvik.Outline.ToMethod

/-!
# Reading

What is read out of a draft is what can be encoded, so every read relaxes the draft first.  If
relaxation fails, the draft stays as it was and the next read tries again.  A read that fails later
leaves the draft relaxed.
-/

namespace Dalvik

/-- A position of a relaxed draft with all that is known about it. -/
structure Location where
  /-- The position. -/
  index : Nat
  /-- Its address. -/
  address : Nat
  /-- The instruction, which the end does not have. -/
  instruction? : Option (Instruction Label)
  /-- The labels that stand here. -/
  labels : List Label
  /-- The debug items pinned here. -/
  items : List DebugItem
  deriving DecidableEq

namespace Draft

/-- Relaxes the draft, unless it is relaxed already. -/
def relax : DraftM Unit := do
  let d ← get
  set (← require d.relaxed)

/-- Every position of a draft, the end being the last. -/
def locations (d : Draft) : List Location :=
  let addresses := d.listing.addresses
  d.listing.points.zipIdx.map fun (point, index) =>
    { index
      address := addresses.getD index 0
      instruction? := d.instruction? index
      labels := point.labels.toList
      items := point.items.toList }

/-- The debug items of a draft with their addresses. -/
def addressedDebugItems (d : Draft) : List (Nat × DebugItem) :=
  let addresses := d.listing.addresses
  d.listing.debugItems.map fun (index, item) => (addresses.getD index 0, item)

/-- The instructions in order. -/
def readInstructions : DraftM (List (Instruction Label)) := do
  relax
  return (← get).listing.instructions

/-- Every position. -/
def readLocations : DraftM (List Location) := do
  relax
  return (← get).locations

/-- The exception handlers in order. -/
def readTries : DraftM (List (TryEntry Label)) := do
  relax
  return (← get).tries.toList

/-- The debug items with their addresses. -/
def readDebugItems : DraftM (List (Nat × DebugItem)) := do
  relax
  return (← get).addressedDebugItems

/-- The address at which a label stands. -/
def readAddress (label : Label) : DraftM Nat := do
  relax
  let d ← get
  let index ← require (d.locate label)
  return d.listing.addresses.getD index 0

/-- The finished method. -/
def toMethod : DraftM Method := do
  relax
  let d ← get
  let outline ← require d.outline
  require (outline.toMethod (d.owners?.getD []).of?)

end Draft

end Dalvik
