import Dalvik.Store.Edit

/-!
# Relaxing a store

Relaxation first makes sure that every label in use has been placed, then binds the switches to
their tables, and then sweeps over the cells until a sweep finds nothing to do.  Repairs are the
edits of cells.  If binding fails, the tables that were bound before stay bound.
-/

namespace Dalvik

namespace Store

/-! ### Binding switches to their tables -/

/-- Makes sure that every label in use has been placed. -/
def checkPlaced (s : Store) : Except Error Unit := do
  s.instructions.forM fun i => i.targets.forM fun label => discard (s.cellOf label)
  s.tries.toList.forM fun entry => entry.places.forM fun label => discard (s.cellOf label)

/-- Finds the position of the table of the switch at `switch`, whose label is `label`. -/
def findTable (s : Store) (switch : Nat) (opcode : Opcode) (label : Label) : Except Error Nat := do
  let target := (← s.cellOf label).index
  if target = s.size then throw (.switchTargetsEnd switch)
  let table := Listing.skipNops target (s.instructions.drop target)
  match s.instruction? table with
  | some (.data payload) =>
    if payload.opcode = opcode.table then return table
    else throw (.mismatchedPayload switch opcode.table payload.opcode)
  | _ => throw (.switchWithoutPayload switch)

/-- The switch that refers to the table at a position. -/
def switchOf? (s : Store) (table : Nat) : Option Handle := do
  s.referrals.switchOf? (← s.order[table]?)

/-- Notes that the switch at a position refers to the table at another. -/
def refer (s : Store) (table switch : Nat) : Store :=
  match s.order[table]?, s.order[switch]? with
  | some t, some h => { s with referrals := s.referrals.insert t h }
  | _, _ => s

/-- Binds the switch at a position to its table, if there is a switch. -/
def bindSwitch (index : Nat) : StoreM Unit := do
  let s ← get
  match s.instruction? index with
  | none => return
  | some i =>
    match i.switchTarget? with
    | none => return
    | some label =>
      let table ← require (s.findTable index i.opcode label)
      modify (·.refer table index)
      if (s.switchOf? table).isSome then throw (.ambiguousPayload table)

/-- Binds all switches to their tables. -/
def bindTables : StoreM Unit := do
  modify fun s => { s with referrals := [] }
  (List.range (← get).size).forM bindSwitch

/-! ### Sweeping -/

/-- What the cell at a position needs. -/
def repairAt (s : Store) (index : Nat) : Except Error Repair :=
  match s.cell? index with
  | none => return .keep
  | some cell =>
    match cell.instruction? with
    | some (.op _ (.jump reach target)) => do
      let wider := reach.widen (((← s.cellOf target).address : Int) - cell.address)
      return if wider = reach then .keep else .widen wider target
    | some (.data payload) =>
      return if payload.isSwitchTable && (s.switchOf? index).isNone then .drop
        else if cell.address % 2 = 0 then .keep
        else if 0 < index && (s.instruction? (index - 1)).any Instruction.isNop then .closeGap
        else .openGap
    | _ => return .keep

/-- Carries out a repair at a position.  Gives the position from which to go on. -/
def repair (s : Store) (index : Nat) : Repair → Nat × Store
  | .keep => (index + 1, s)
  | .widen reach target => (index + 1, (s.setInstruction index (.goto reach target)).2)
  | .drop => (index, (s.removeCell index).2)
  | .closeGap => (index, (s.removeCell (index - 1)).2)
  | .openGap => (index + 2, s.insertCell index .nop)

/-- Sweeps the last `left` instructions, which start at position `index`.  Gives whether anything
was repaired. -/
def sweepFrom : (left index : Nat) → StoreM Bool
  | 0, _ => return false
  | left + 1, index => do
    match ← require ((← get).repairAt index) with
    | .keep => sweepFrom left (index + 1)
    | action =>
      let next ← modifyGet (·.repair index action)
      discard (sweepFrom left next)
      return true

/-- One sweep over all instructions. -/
def sweep : StoreM Bool := do sweepFrom (← get).size 0

/-- Number of jumps with a given reach. -/
def countJumps (s : Store) (reach : Reach) : Nat :=
  s.instructions.countP fun
    | .op _ (.jump r _) => r = reach
    | _ => false

/-- Sweeps until nothing is left to repair, but no more than `limit` times. -/
def settleWithin : (limit : Nat) → StoreM Unit
  | 0 => return
  | limit + 1 => do
    if ← sweep then settleWithin limit

/-- Sweeps until nothing is left to repair.  As with drafts, the jumps limit the number of sweeps.
-/
def settle : StoreM Unit := do
  let s ← get
  settleWithin (2 + 2 * s.countJumps .byte + s.countJumps .word)

/-- Relaxes the store, unless it is relaxed already. -/
def relax : StoreM Unit := do
  if (← get).dirty then
    require (← get).checkPlaced
    bindTables
    settle
    modify fun s => { s with dirty := false }

end Store

end Dalvik
