import Dalvik.Draft.Basic

/-!
# Editing

An edit is an action on a draft.  It first checks its arguments, positions before instructions and
instructions before labels; only then does it change the draft, so an edit that fails leaves the
draft as it was.  Edits that change the instructions make the draft need relaxation again.  Labels,
debug items and exception handlers do not.
-/

namespace Dalvik

/-- An action that may change a draft and may fail. -/
abbrev DraftM := EStateM Error Draft

namespace Draft

variable {α : Type}

/-- Goes on with the outcome of a check. -/
def require : Except Error α → DraftM α
  | .ok a => pure a
  | .error e => throw e

/-- Changes the instructions of a draft. -/
def modifyListing (f : Listing → Listing) : DraftM Unit :=
  modify fun d => { d with listing := f d.listing, owners? := none }

/-- Changes what is attached to the instructions of a draft. -/
def modifyPoints (f : Listing → Listing) : DraftM Unit :=
  modify fun d => { d with listing := f d.listing }

/-- Adds an instruction at the end.  What was attached to the end ends up on it. -/
def append (i : Instruction Label) : DraftM Unit := do
  require ((← get).checkInstruction i)
  modifyListing (·.append i)

/-- Adds an instruction in front of a position, or at the end. -/
def insert (index : Nat) (i : Instruction Label) : DraftM Unit := do
  require ((← get).checkIndex index)
  require ((← get).checkInstruction i)
  modifyListing (·.insertAt index i)

/-- Exchanges the instruction at a position for another, and gives it back. -/
def replace (index : Nat) (i : Instruction Label) : DraftM (Instruction Label) := do
  let old ← require ((← get).instructionAt index)
  require ((← get).checkInstruction i)
  modifyListing (·.replaceAt index i)
  return old

/-- Removes the instruction at a position, and gives it back.  What was attached to it goes to the
next position, ahead of what is attached there. -/
def remove (index : Nat) : DraftM (Instruction Label) := do
  let old ← require ((← get).instructionAt index)
  modifyListing (·.removeAt index)
  return old

/-- Exchanges two instructions.  What is attached to them stays. -/
def swap (index₁ index₂ : Nat) : DraftM Unit := do
  discard (require ((← get).instructionAt index₁))
  discard (require ((← get).instructionAt index₂))
  if index₁ ≠ index₂ then
    modifyListing (·.swapAt index₁ index₂)

/-- Issues a label that stands nowhere yet. -/
def issueLabel : DraftM Label :=
  modifyGet fun d =>
    (⟨d.id, d.listing.issued⟩,
      { d with listing := { d.listing with issued := d.listing.issued + 1 } })

/-- Issues a label for a position. -/
def issueLabelAt (index : Nat) : DraftM Label := do
  let label ← issueLabel
  modifyPoints (·.mark index label)
  return label

/-- Issues a label for the instruction at a position, or for the end. -/
def labelAt (index : Nat) : DraftM Label := do
  require ((← get).checkIndex index)
  issueLabelAt index

/-- Issues a label for the instruction that covers an address, or for the end.  Addresses are those
of the instructions as they are. -/
def labelAtAddress (address : UInt64) : DraftM Label := do
  let d ← get
  if d.units < address.toNat then
    throw (.addressOutOfBounds address.toInt64.toInt d.units)
  else
    issueLabelAt (Listing.covering 0 d.listing.instructions address.toNat)

/-- Adds an exception handler for the instructions from one label up to another. -/
def addTry (entry : TryEntry Label) : DraftM Unit := do
  let d ← get
  require (entry.places.forM d.checkLabel)
  modify fun d => { d with tries := d.tries.push entry }

/-- Pins a debug item to a position. -/
def addDebugItem (index : Nat) (item : DebugItem) : DraftM Unit := do
  require ((← get).checkIndex index)
  modifyPoints (·.pin index item)

/-- Detaches the debug items from a position, and gives them back. -/
def removeDebugItems (index : Nat) : DraftM (List DebugItem) := do
  require ((← get).checkIndex index)
  let (items, rest) := ((← get).listing.point index).items.take
  modifyPoints (·.modifyPoint index fun point => { point with items := rest })
  return items

/-- Keeps the debug items that satisfy a predicate, throughout the method. -/
def retainDebugItems (keep : DebugItem → Bool) : DraftM Unit :=
  modifyPoints (·.retainItems keep)

end Draft

end Dalvik
