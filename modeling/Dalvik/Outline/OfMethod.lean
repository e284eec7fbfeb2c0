import Dalvik.Method
import Dalvik.Outline.Basic

/-!
# The outline of a finished method

Every address in a finished method is looked up.  An address within an instruction stands for that
instruction and one past the end for the end; only negative addresses are refused.

The targets of a switch table are relative to the switch, so the switch has to be found first: it is
the one that points at the table, or at a run of `nop`s in front of it.
-/

namespace Dalvik

/-- Which instruction covers which address. -/
structure Coverage where
  /-- For every address of the code the position of the instruction there. -/
  positions : Array Nat
  /-- Number of instructions, which is also the position of the end. -/
  count : Nat

namespace Coverage

/-- The coverage of some instructions: each repeats its position once per code unit. -/
def ofInstructions {τ : Type} (instructions : List (Instruction τ)) : Coverage where
  positions := (instructions.zipIdx.flatMap fun (i, k) => List.replicate i.units k).toArray
  count := instructions.length

/-- The instruction that covers an address, or the end. -/
def position (c : Coverage) (address : Int) : Except Error Nat :=
  if address < 0 then .error (.addressOutOfBounds address c.positions.size)
  else .ok (c.positions.getD address.toNat c.count)

/-- Looks up the targets of an instruction, as offsets from an address. -/
def resolveFrom (c : Coverage) (base : Nat) (i : Instruction Int32) :
    Except Error (Instruction Nat) :=
  i.mapTargetsM fun offset => c.position (base + offset.toInt)

/-- Looks up the targets of a table that belongs to no switch.  They are kept as far as they can be,
as addresses. -/
def resolveOrphan (c : Coverage) (i : Instruction Int32) : Except Error (Instruction Nat) :=
  i.mapTargetsM fun offset => c.position (max offset.toInt 0)

end Coverage

namespace Method

/-- The positions that switches point at, each with the address of the switch.  A branch is relative
to itself, so the first target of an instruction tells where it points. -/
def switchTargets (m : Method) (c : Coverage) : List (Nat × Nat) :=
  m.code.entries.toList.filterMap fun (address, i) =>
    if i.isPayload || !i.opcode.isSwitch then none
    else do
      let offset ← i.targets.head?
      let position ← (c.position (address + offset.toInt)).toOption
      return (position, address)

/-- The address of the switch that reaches a position through nothing but `nop`s.  The nearest
position that a switch points at decides, and there the first such switch. -/
def switchAddress? (m : Method) (switches : List (Nat × Nat)) (index : Nat) : Option Nat :=
  match switches.lookup index with
  | some address => some address
  | none =>
    match index with
    | 0 => none
    | before + 1 =>
      match m.code.get? before with
      | some (_, i) => if i.isNop then m.switchAddress? switches before else none
      | none => none

/-- Looks up the targets of the instruction at a position and an address. -/
def resolveAt (m : Method) (c : Coverage) (switches : List (Nat × Nat)) (address index : Nat)
    (i : Instruction Int32) : Except Error (Instruction Nat) :=
  if i.isPayload then
    match m.switchAddress? switches index with
    | some base => c.resolveFrom base i
    | none => c.resolveOrphan i
  else c.resolveFrom address i

/-- The handlers of a block, with signed addresses.  The end of the block is computed in 64 bits. -/
def tryEntries (block : TryBlock) : List (TryEntry Int) :=
  block.handlers.map fun handler =>
    { start := block.start.toInt64.toInt
      stop := (block.start.toInt64 + block.count.toInt64).toInt
      type? := handler.type?
      handler := handler.address.toInt64.toInt }

/-- The outline of a method.  Branches are looked up before switch tables, then the instructions are
validated, then come the try blocks and last the debug items. -/
def outline (m : Method) : Except Error Outline := do
  let c := Coverage.ofInstructions m.instructions
  let switches := m.switchTargets c
  -- only the failures of this first round matter: its instructions are looked up again below
  (m.code.entries.toList.filter fun (_, i) => !i.isPayload).forM fun (address, i) =>
    discard (c.resolveFrom address i)
  let instructions ← m.code.toList.mapM fun (address, index, i) =>
    m.resolveAt c switches address index i
  instructions.forM Instruction.validate
  let tries ← (m.tries.flatMap tryEntries).mapM fun entry => entry.mapM c.position
  let debugItems ← m.debugItems.mapM fun (address, item) =>
    return (← c.position address.toInt64.toInt, item)
  return ⟨m.registers, instructions, tries, debugItems⟩

end Method

end Dalvik
