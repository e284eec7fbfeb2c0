import Dalvik.Store.Arena
import Dalvik.Listing.Relaxation
import Dalvik.Outline.Basic

/-!
# Stores

A store keeps a method that is being edited in cells.  The handles of the cells are listed in the
order of the method, the end coming last, and a table gives the handle of the cell at which each
label stands.  Positions and addresses are kept up to date in the cells, so they need not be counted
from the start whenever they are asked for.

What the store stands for is a draft: the listing of the draft is read off the cells in order.
Edits of a store do to the cells what edits of a draft do to the listing.
-/

namespace Dalvik

/-- A switch table and the switch that refers to it. -/
structure Referral where
  /-- Handle of the table. -/
  table : Handle
  /-- Handle of the switch. -/
  switch : Handle
  deriving DecidableEq, Inhabited

/-- The switch tables that are referred to; none is listed twice. -/
abbrev Referrals := List Referral

namespace Referrals

/-- The switch that refers to a table. -/
def switchOf? (referrals : Referrals) (table : Handle) : Option Handle :=
  (referrals.find? (·.table = table)).map (·.switch)

/-- Notes that a switch refers to a table, in place of the one that did so before. -/
def insert (referrals : Referrals) (table switch : Handle) : Referrals :=
  if (referrals.switchOf? table).isSome then
    referrals.map fun r => if r.table = table then ⟨table, switch⟩ else r
  else referrals ++ [⟨table, switch⟩]

/-- Forgets whatever mentions a cell. -/
def forget (referrals : Referrals) (h : Handle) : Referrals :=
  referrals.filter fun r => r.table ≠ h && r.switch ≠ h

end Referrals

/-- A method that can be edited, kept in cells. -/
structure Store where
  /-- Identity of the store, stamped on its labels. -/
  id : Nat
  /-- Number of registers. -/
  registers : UInt16
  /-- The cells. -/
  arena : Arena := ∅
  /-- The handles of the cells in the order of the method, the end being the last. -/
  order : Array Handle := #[]
  /-- The handle of the cell at which each label stands, by the number of the label; a label that
  has not been placed has none. -/
  places : Array (Option Handle) := #[]
  /-- The exception handlers in order. -/
  tries : Array (TryEntry Label) := #[]
  /-- The switches that refer to the switch tables, which can be relied on after relaxation. -/
  referrals : Referrals := []
  /-- Whether relaxation has something to look at. -/
  dirty : Bool := false
  deriving DecidableEq, Inhabited

namespace Store

/-- Adds a cell with nothing in it behind the others. -/
def addBlank (s : Store) (index : Nat) : Store :=
  let (arena, h) := s.arena.alloc { index, address := 0 }
  { s with arena, order := s.order.push h }

/-- The store of `count` positions with nothing in them, and the end.  It is of use only once the
positions have been filled and laid out. -/
def blank (id : Nat) (registers : UInt16) (count : Nat) : Store :=
  (List.range (count + 1)).foldl addBlank { id, registers, dirty := 0 < count }

/-- The store of a method with nothing in it. -/
def new (id : Nat) (registers : UInt16) : Store := blank id registers 0

/-- Number of instructions, which is also the position of the end. -/
def size (s : Store) : Nat := s.order.size - 1

/-- The cells in order, that of the end being the last. -/
def cells (s : Store) : List Cell := s.order.toList.map s.arena.get

/-- The cell at a position. -/
def cell? (s : Store) (index : Nat) : Option Cell := s.order[index]?.map s.arena.get

/-- Size in code units, the instructions being as they are. -/
def units (s : Store) : Nat := ((s.cell? s.size).map (·.address)).getD 0

/-- The instruction at a position as it is. -/
def instruction? (s : Store) (index : Nat) : Option (Instruction Label) :=
  (s.cell? index).bind (·.instruction?)

/-- The instructions in order. -/
def instructions (s : Store) : List (Instruction Label) := s.cells.filterMap (·.instruction?)

/-- Refuses positions past the last instruction, or past the end if that is allowed. -/
def checkIndex (s : Store) (index : Nat) (atEnd : Bool) : Except Error Unit :=
  if index < s.size || atEnd && index == s.size then .ok ()
  else .error (.indexOutOfBounds index s.size)

/-- Refuses labels that the store did not issue. -/
def checkLabel (s : Store) (label : Label) : Except Error Unit :=
  if label.draft = s.id && label.number < s.places.size then .ok ()
  else .error (.unknownLabel label)

/-- Refuses invalid instructions and foreign labels. -/
def checkInstruction (s : Store) (i : Instruction Label) : Except Error Unit := do
  i.validate
  i.targets.forM s.checkLabel

/-- The cell at which a label stands. -/
def cellOf (s : Store) (label : Label) : Except Error Cell :=
  if label.draft = s.id then
    match s.places[label.number]? with
    | none => .error (.unknownLabel label)
    | some none => .error (.unplacedLabel label)
    | some (some h) => .ok (s.arena.get h)
  else .error (.unknownLabel label)

/-- The position at which a label stands. -/
def labelIndex (s : Store) (label : Label) : Except Error Nat := (s.cellOf label).map (·.index)

/-! ### Laying out -/

/-- Moves the cells of some handles to the positions from `index` on and to the addresses from
`address` on. -/
def layOut (arena : Arena) (index address : Nat) : List Handle → Arena
  | [] => arena
  | h :: rest =>
    let moved := arena.modify h (Cell.moveTo index address)
    layOut moved (index + 1) (moved.get h).stop rest

/-- The address at which the cell at a position belongs, going by the cell in front of it. -/
def startOf (s : Store) : (index : Nat) → Nat
  | 0 => 0
  | before + 1 => ((s.cell? before).map Cell.stop).getD 0

/-- Recomputes the positions and the addresses of the cells from a position on. -/
def reindexFrom (s : Store) (index : Nat) : Store :=
  { s with arena := layOut s.arena index (s.startOf index) (s.order.toList.drop index) }

/-! ### Cells that come and go

Positions that do not exist are left alone: the checks come before the edit. -/

/-- Changes the cell at a position. -/
def modifyCell (s : Store) (index : Nat) (f : Cell → Cell) : Store :=
  match s.order[index]? with
  | none => s
  | some h => { s with arena := s.arena.modify h f }

/-- Puts an instruction into the cell of the end, and adds another cell for the end. -/
def appendCell (s : Store) (i : Instruction Label) : Store :=
  match s.order.back? with
  | none => s
  | some last =>
    let arena := s.arena.modify last (·.withInstruction (some i))
    let filled := arena.get last
    let (arena, fresh) := arena.alloc { index := filled.index + 1, address := filled.stop }
    { s with arena, order := s.order.push fresh }

/-- Adds a cell for an instruction in front of a position. -/
def insertCell (s : Store) (index : Nat) (i : Instruction Label) : Store :=
  if index = s.size then s.appendCell i
  else
    match s.cell? index with
    | none => s
    | some behind =>
      let (arena, fresh) :=
        s.arena.alloc { index, address := behind.address, instruction? := some i }
      { s with arena, order := s.order.insertIdxIfInBounds index fresh }.reindexFrom (index + 1)

/-- Puts an instruction into the cell at a position.  Gives the one that was there. -/
def setInstruction (s : Store) (index : Nat) (i : Instruction Label) :
    Option (Instruction Label) × Store :=
  (s.instruction? index,
    (s.modifyCell index (·.withInstruction (some i))).reindexFrom (index + 1))

/-- Exchanges the instructions in two cells. -/
def swapCells (s : Store) (index₁ index₂ : Nat) : Store :=
  let i₁ := s.instruction? index₁
  let i₂ := s.instruction? index₂
  ((s.modifyCell index₁ (·.withInstruction i₂)).modifyCell index₂
    (·.withInstruction i₁)).reindexFrom (min index₁ index₂ + 1)

/-- Makes labels stand at a cell, in the table. -/
def retarget (places : Array (Option Handle)) (labels : List Label) (h : Handle) :
    Array (Option Handle) :=
  labels.foldl (fun places label => places.setIfInBounds label.number (some h)) places

/-- Removes the cell at a position.  What was attached to it goes to the cell behind it.  Gives the
instruction that it held. -/
def removeCell (s : Store) (index : Nat) : Option (Instruction Label) × Store :=
  match s.order[index]?, s.order[index + 1]? with
  | some gone, some next =>
    let removed := s.arena.get gone
    (removed.instruction?,
      { s with
        order := s.order.eraseIdxIfInBounds index
        arena := (s.arena.free gone).modify next (·.modifyPoint removed.point.mergeInto)
        places := retarget s.places removed.point.labels.toList next
        referrals := s.referrals.forget gone }.reindexFrom index)
  | _, _ => (none, s)

/-! ### What is attached -/

/-- Issues a label that stands nowhere yet. -/
def issueLabel (s : Store) : Label × Store :=
  (⟨s.id, s.places.size⟩, { s with places := s.places.push none })

/-- Makes a label stand at a position, which it must not do yet. -/
def placeLabel (s : Store) (label : Label) (index : Nat) : Store :=
  { s.modifyCell index
      (·.modifyPoint fun point => { point with labels := point.labels.push label }) with
    places := s.places.setIfInBounds label.number s.order[index]? }

/-- Issues a label for a position. -/
def issueLabelAt (s : Store) (index : Nat) : Label × Store :=
  let (label, s) := s.issueLabel
  (label, s.placeLabel label index)

/-- Pins a debug item to a position. -/
def pinItem (s : Store) (index : Nat) (item : DebugItem) : Store :=
  s.modifyCell index (·.modifyPoint fun point => { point with items := point.items.push item })

/-- Detaches the debug items from a position, and gives them. -/
def takeItems (s : Store) (index : Nat) : List DebugItem × Store :=
  let items := ((s.cell? index).map (·.point.items.take.1)).getD []
  (items, s.modifyCell index
    (·.modifyPoint fun point => { point with items := point.items.take.2 }))

/-- Keeps the debug items that satisfy a predicate. -/
def retainItems (s : Store) (keep : DebugItem → Bool) : Store :=
  { s with
    arena := s.order.foldl (fun arena h =>
      arena.modify h (·.modifyPoint fun point => { point with items := point.items.retain keep }))
      s.arena }

end Store

end Dalvik
