import Dalvik.Store.Relaxation
import Dalvik.Draft.Read

/-!
# Reading a store

Every read relaxes the store first.
-/

namespace Dalvik

namespace Store

/-- The positions of the store with all that is known about them. -/
def locations (s : Store) : List Location :=
  s.cells.map fun cell =>
    { index := cell.index
      address := cell.address
      instruction? := cell.instruction?
      labels := cell.point.labels.toList
      items := cell.point.items.toList }

/-- The debug items of a store with their addresses. -/
def addressedDebugItems (s : Store) : List (Nat × DebugItem) :=
  s.cells.flatMap fun cell => cell.point.items.toList.map (cell.address, ·)

/-- The outline that the labels currently spell out. -/
def outline (s : Store) : Except Error Outline := do
  let instructions ← s.instructions.mapM fun i => i.mapTargetsM s.labelIndex
  let tries ← s.tries.toList.mapM fun entry => entry.mapM s.labelIndex
  return ⟨s.registers, instructions, tries,
    s.cells.flatMap fun cell => cell.point.items.toList.map (cell.index, ·)⟩

/-- The position of the switch that refers to the table at a position. -/
def switchIndex? (s : Store) (table : Nat) : Option Nat :=
  (s.switchOf? table).map fun h => (s.arena.get h).index

/-- The instructions in order. -/
def readInstructions : StoreM (List (Instruction Label)) := do
  relax
  return (← get).instructions

/-- Every position. -/
def readLocations : StoreM (List Location) := do
  relax
  return (← get).locations

/-- The exception handlers in order. -/
def readTries : StoreM (List (TryEntry Label)) := do
  relax
  return (← get).tries.toList

/-- The debug items with their addresses. -/
def readDebugItems : StoreM (List (Nat × DebugItem)) := do
  relax
  return (← get).addressedDebugItems

/-- The address at which a label stands. -/
def readAddress (label : Label) : StoreM Nat := do
  relax
  return (← require ((← get).cellOf label)).address

/-- The finished method. -/
def toMethod : StoreM Method := do
  relax
  let s ← get
  let outline ← require s.outline
  require (outline.toMethod s.switchIndex?)

end Store

end Dalvik
