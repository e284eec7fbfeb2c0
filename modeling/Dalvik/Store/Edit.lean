import Dalvik.Bisection
import Dalvik.Store.Basic

/-!
# Editing a store

As with drafts, an edit checks its arguments before it changes anything, and edits that change the
instructions make the store need relaxation again.
-/

namespace Dalvik

/-- An action that may change a store and may fail. -/
abbrev StoreM := EStateM Error Store

namespace Store

variable {α : Type}

/-- Goes on with the outcome of a check. -/
def require : Except Error α → StoreM α
  | .ok a => pure a
  | .error e => throw e

/-- Changes the instructions of a store. -/
def modifyCode (f : Store → Store) : StoreM Unit :=
  modify fun s => { f s with dirty := true }

/-- Changes the instructions of a store by an edit that gives back an instruction.  Where there is
none, the position does not exist. -/
def exchange (index : Nat) (f : Store → Option (Instruction Label) × Store) :
    StoreM (Instruction Label) := do
  let size := (← get).size
  match ← modifyGet f with
  | none => throw (.indexOutOfBounds index size)
  | some old =>
    modifyCode fun s => s
    return old

/-- Adds an instruction at the end.  What was attached to the end ends up on it. -/
def append (i : Instruction Label) : StoreM Unit := do
  require ((← get).checkInstruction i)
  modifyCode (·.appendCell i)

/-- Adds an instruction in front of a position, or at the end. -/
def insert (index : Nat) (i : Instruction Label) : StoreM Unit := do
  require ((← get).checkIndex index true)
  require ((← get).checkInstruction i)
  modifyCode (·.insertCell index i)

/-- Exchanges the instruction at a position for another, and gives it back. -/
def replace (index : Nat) (i : Instruction Label) : StoreM (Instruction Label) := do
  require ((← get).checkIndex index false)
  require ((← get).checkInstruction i)
  exchange index (·.setInstruction index i)

/-- Removes the instruction at a position, and gives it back.  What was attached to it goes to the
next position, ahead of what is attached there. -/
def remove (index : Nat) : StoreM (Instruction Label) := do
  require ((← get).checkIndex index false)
  exchange index (·.removeCell index)

/-- Exchanges two instructions.  What is attached to them stays. -/
def swap (index₁ index₂ : Nat) : StoreM Unit := do
  require ((← get).checkIndex index₁ false)
  require ((← get).checkIndex index₂ false)
  if index₁ ≠ index₂ then
    modifyCode (·.swapCells index₁ index₂)

/-- Issues a label for the instruction at a position, or for the end. -/
def labelAt (index : Nat) : StoreM Label := do
  require ((← get).checkIndex index true)
  modifyGet (·.issueLabelAt index)

/-- The position whose cell covers an address.  Addresses increase with the position, so it is found
by bisection. -/
def covering (s : Store) (address : Nat) : Nat :=
  bisect (fun index => (s.cell? index).any (·.address ≤ address)) 0 s.order.size - 1

/-- Issues a label for the instruction that covers an address, or for the end.  Addresses are those
of the instructions as they are. -/
def labelAtAddress (address : UInt64) : StoreM Label := do
  let s ← get
  if s.units < address.toNat then
    throw (.addressOutOfBounds address.toInt64.toInt s.units)
  else
    modifyGet (·.issueLabelAt (s.covering address.toNat))

/-- Adds an exception handler for the instructions from one label up to another. -/
def addTry (entry : TryEntry Label) : StoreM Unit := do
  require (entry.places.forM (← get).checkLabel)
  modify fun s => { s with tries := s.tries.push entry }

/-- Pins a debug item to a position. -/
def addDebugItem (index : Nat) (item : DebugItem) : StoreM Unit := do
  require ((← get).checkIndex index true)
  modify (·.pinItem index item)

/-- Detaches the debug items from a position, and gives them back. -/
def removeDebugItems (index : Nat) : StoreM (List DebugItem) := do
  require ((← get).checkIndex index true)
  modifyGet (·.takeItems index)

/-- Keeps the debug items that satisfy a predicate, throughout the method. -/
def retainDebugItems (keep : DebugItem → Bool) : StoreM Unit :=
  modify (·.retainItems keep)

end Store

end Dalvik
