import Dalvik.Draft.Basic
import Dalvik.Outline.OfMethod

/-!
# Drafts from finished methods

Every place that an outline mentions gets a label of its own.  Labels are numbered in the order
branches, switch tables, exception handlers.
-/

namespace Dalvik

namespace Outline

/-- The instructions that are executed. -/
def branches (o : Outline) : List (Instruction Nat) := o.instructions.filter (!·.isPayload)

/-- The payloads. -/
def payloads (o : Outline) : List (Instruction Nat) := o.instructions.filter (·.isPayload)

/-- The positions at which the labels stand, by number. -/
def places (o : Outline) : List Nat :=
  o.branches.flatMap (·.targets) ++ o.payloads.flatMap (·.targets) ++ o.tries.flatMap (·.places)

end Outline

/-- The instruction with its targets replaced by labels, numbered from `first` on. -/
def Instruction.withLabels (draft first : Nat) (i : Instruction Nat) : Instruction Label :=
  let next : Nat → StateM Nat Label := fun _ => modifyGet fun number => (⟨draft, number⟩, number + 1)
  (i.mapTargetsM next first).1

namespace Draft

/-- The instructions with labels for targets, `branch` and `table` being the numbers of the first
label in a branch and in a payload. -/
def labelInstructions (id branch table : Nat) (instructions : List (Instruction Nat)) :
    Array (Instruction Label) :=
  (instructions.foldl (fun (labelled, branch, table) i =>
    if i.isPayload then
      (labelled.push (i.withLabels id table), branch, table + i.targets.length)
    else
      (labelled.push (i.withLabels id branch), branch + i.targets.length, table))
    (#[], branch, table)).1

/-- The handlers with labels for places, numbered from `first` on. -/
def labelTries (id first : Nat) (tries : List (TryEntry Nat)) : Array (TryEntry Label) :=
  (tries.zipIdx.map fun (entry, k) =>
    let number := first + 3 * k
    ⟨⟨id, number⟩, ⟨id, number + 1⟩, entry.type?, ⟨id, number + 2⟩⟩).toArray

/-- The draft that spells out an outline. -/
def ofOutline (id : Nat) (o : Outline) : Draft :=
  let inBranches := (o.branches.flatMap (·.targets)).length
  let inPayloads := (o.payloads.flatMap (·.targets)).length
  let places := o.places
  let bare : Listing :=
    { slots := (labelInstructions id 0 inBranches o.instructions).map fun i => ⟨i, ∅⟩
      issued := places.length }
  let marked := places.zipIdx.foldl (fun l (index, number) => l.mark index ⟨id, number⟩) bare
  { id
    registers := o.registers
    listing := o.debugItems.foldl (fun l (index, item) => l.pin index item) marked
    tries := labelTries id (inBranches + inPayloads) o.tries
    owners? := if o.instructions.isEmpty then some [] else none }

/-- The draft of a finished method. -/
def ofMethod (id : Nat) (m : Method) : Except Error Draft :=
  return ofOutline id (← m.outline)

end Draft

end Dalvik
