import Dalvik.Listing.Owners

/-!
# Relaxation

Relaxation turns a freshly edited listing into one whose instructions can be encoded.  Three things
can be wrong after an edit:

* a jump is too far from its target, and gets a longer form;
* a payload is at an odd address, and is moved to an even one, by removing a `nop` right before it
  or else by adding one;
* a switch table has lost its switch, and is removed.

A repair moves everything behind it and may undo what was repaired before, so the listing is swept
from front to back until a sweep finds nothing to do.

At the end of a sweep every payload is aligned: a repair in front of the cursor moves only what the
sweep has yet to see, and what lies behind the cursor never moves again.  Hence what sets off another
sweep, after the first, is a jump that got longer, and no jump gets longer more than twice.
-/

namespace Dalvik

/-- Where labels stand and which addresses positions have, as looked up while a listing is swept. -/
structure Survey where
  /-- The position of every label by its number. -/
  positions : Array (Option Nat)
  /-- The address of every position. -/
  addresses : Array Nat

/-- The survey of a listing. -/
def Listing.survey (l : Listing) : Survey := ⟨l.positions, l.addresses⟩

/-- The address at which a label stands. -/
def Survey.address? (s : Survey) (label : Label) : Option Nat := do
  s.addresses[← (← s.positions[label.number]?)]?

/-- A listing whose switch tables have found their switches. -/
structure Bound where
  /-- The listing. -/
  listing : Listing
  /-- The owners of its switch tables. -/
  owners : Owners
  deriving DecidableEq, Inhabited

/-- What a sweep does at a position. -/
inductive Repair where
  /-- Nothing. -/
  | keep
  /-- The jump gets a longer form. -/
  | widen (reach : Reach) (target : Label)
  /-- The table is removed. -/
  | drop
  /-- The `nop` before the payload is removed. -/
  | closeGap
  /-- A `nop` is added before the payload. -/
  | openGap
  deriving DecidableEq

namespace Bound

/-- Whether a plain `nop` comes right before a position. -/
def followsNop (b : Bound) : Nat → Bool
  | 0 => false
  | before + 1 => (b.listing.instruction? before).any Instruction.isNop

/-- What an instruction at a given position and address needs. -/
def repairOf (b : Bound) (survey : Survey) (index address : Nat) : Instruction Label → Repair
  | .op _ (.jump reach target) =>
    match survey.address? target with
    | none => .keep
    | some stop =>
      let wider := reach.widen ((stop : Int) - address)
      if wider = reach then .keep else .widen wider target
  | .op .. => .keep
  | .data payload =>
    if payload.isSwitchTable && (b.owners.of? index).isNone then .drop
    else if address % 2 = 0 then .keep
    else if b.followsNop index then .closeGap
    else .openGap

/-- What the instruction at a position needs. -/
def repairAt (b : Bound) (survey : Survey) (index : Nat) : Repair :=
  match b.listing.instruction? index, survey.addresses[index]? with
  | some i, some address => b.repairOf survey index address i
  | _, _ => .keep

/-- Adds an instruction in front of a position. -/
def insertAt (b : Bound) (index : Nat) (i : Instruction Label) : Bound :=
  ⟨b.listing.insertAt index i, b.owners.insertAt index⟩

/-- Exchanges the instruction at a position for another. -/
def replaceAt (b : Bound) (index : Nat) (i : Instruction Label) : Bound :=
  ⟨b.listing.replaceAt index i, b.owners⟩

/-- Removes the instruction at a position. -/
def removeAt (b : Bound) (index : Nat) : Bound :=
  ⟨b.listing.removeAt index, b.owners.removeAt index⟩

/-- Carries out a repair at a position.  Gives the position from which to go on: whatever the repair,
one instruction fewer is left to look at. -/
def repair (b : Bound) (index : Nat) : Repair → Bound × Nat
  | .keep => (b, index + 1)
  | .widen reach target => (b.replaceAt index (.goto reach target), index + 1)
  | .drop => (b.removeAt index, index)
  | .closeGap => (b.removeAt (index - 1), index)
  | .openGap => (b.insertAt index .nop, index + 2)

/-- Sweeps the last `left` instructions, which start at position `index`.  Gives the repaired listing
and whether anything was repaired.  The survey is renewed after every repair. -/
def sweepFrom (b : Bound) (survey : Survey) : (left index : Nat) → Bound × Bool
  | 0, _ => (b, false)
  | left + 1, index =>
    match b.repairAt survey index with
    | .keep => b.sweepFrom survey left (index + 1)
    | action =>
      let (repaired, next) := b.repair index action
      ((repaired.sweepFrom repaired.listing.survey left next).1, true)

/-- One sweep over the whole listing. -/
def sweep (b : Bound) : Bound × Bool := b.sweepFrom b.listing.survey b.listing.size 0

/-- Number of jumps with a given reach. -/
def countJumps (b : Bound) (reach : Reach) : Nat :=
  b.listing.instructions.countP fun
    | .op _ (.jump r _) => r = reach
    | _ => false

/-- Sweeps until nothing is left to repair, but no more than `limit` times. -/
def settleWithin (b : Bound) : (limit : Nat) → Bound
  | 0 => b
  | limit + 1 =>
    match b.sweep with
    | (swept, true) => swept.settleWithin limit
    | (swept, false) => swept

/-- No more sweeps are needed than this: one to align, one to see that nothing is left to do, and
one for every time a jump gets longer. -/
def sweepLimit (b : Bound) : Nat := 2 + 2 * b.countJumps .byte + b.countJumps .word

/-- Sweeps until nothing is left to repair. -/
def settle (b : Bound) : Bound := b.settleWithin b.sweepLimit

end Bound

end Dalvik
