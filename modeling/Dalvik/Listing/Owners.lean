import Dalvik.Listing.Basic
import Dalvik.Error

/-!
# Switches and their tables

A switch names a label, and from there its table must be reachable through nothing but `nop`s.  A
table belongs to one switch, because its targets are relative to it.
-/

namespace Dalvik

/-- A switch table and the switch to which it belongs. -/
structure Owner where
  /-- Position of the table. -/
  table : Nat
  /-- Position of the switch. -/
  switch : Nat
  deriving DecidableEq, Inhabited

/-- The tables that belong to switches, in the order of the switches. -/
abbrev Owners := List Owner

namespace Owners

/-- The switch to which the table at a position belongs. -/
def of? (owners : Owners) (table : Nat) : Option Nat :=
  (owners.find? (·.table = table)).map (·.switch)

/-- The owners after something was added in front of a position. -/
def insertAt (owners : Owners) (index : Nat) : Owners :=
  let shift := fun k => if index ≤ k then k + 1 else k
  owners.map fun o => ⟨shift o.table, shift o.switch⟩

/-- The owners after the instruction at a position was removed, those forgotten that mention it. -/
def removeAt (owners : Owners) (index : Nat) : Owners :=
  let shift := fun k => if index < k then k - 1 else k
  (owners.filter fun o => o.table ≠ index && o.switch ≠ index).map fun o =>
    ⟨shift o.table, shift o.switch⟩

end Owners

/-- The kind of table that a switch needs. -/
def Opcode.table : Opcode → Opcode
  | .packedSwitch => .packedSwitchPayload
  | _ => .sparseSwitchPayload

/-- The label of a switch. -/
def Instruction.switchTarget? {τ : Type} : Instruction τ → Option τ
  | .op opcode (.f31t _ target) => if opcode.isSwitch then some target else none
  | _ => none

namespace Listing

/-- The first position from `index` on that holds no plain `nop`, where the instructions from there
on are given. -/
def skipNops (index : Nat) : List (Instruction Label) → Nat
  | [] => index
  | i :: rest => if i.isNop then skipNops (index + 1) rest else index

/-- Finds the table of the switch at `switch`, whose label stands at `target`. -/
def findTable (l : Listing) (owners : Owners) (switch : Nat) (opcode : Opcode) (target : Nat) :
    Except Error Owner :=
  if l.size ≤ target then .error (.switchTargetsEnd switch)
  else
    let table := skipNops target (l.instructions.drop target)
    match l.instruction? table with
    | some (.data payload) =>
      if payload.opcode ≠ opcode.table then
        .error (.mismatchedPayload switch opcode.table payload.opcode)
      else if (owners.of? table).isSome then .error (.ambiguousPayload table)
      else .ok ⟨table, switch⟩
    | _ => .error (.switchWithoutPayload switch)

/-- Finds the tables of all switches in order, `locate` giving the position of a label. -/
def findOwners (l : Listing) (locate : Label → Except Error Nat) : Except Error Owners :=
  l.instructions.zipIdx.foldlM (fun owners (i, index) =>
    match i.switchTarget? with
    | none => return owners
    | some label => do
      let owner ← l.findTable owners index i.opcode (← locate label)
      return owners ++ [owner]) []

end Listing

end Dalvik
