import Dalvik.Store.Basic
import Dalvik.Draft.OfOutline

/-!
# Stores from finished methods

A store of the right size is made first, then the labels are placed and the instructions filled in,
and then everything is laid out.
-/

namespace Dalvik

namespace Store

/-- Issues labels for some positions in order. -/
def issueLabelsAt (s : Store) (places : List Nat) : Store :=
  places.foldl (fun s index => (s.issueLabelAt index).2) s

/-- Puts instructions into the cells from a position on. -/
def fill (s : Store) (instructions : List (Instruction Label)) : Store :=
  instructions.zipIdx.foldl
    (fun s (i, index) => s.modifyCell index (·.withInstruction (some i))) s

/-- The store that spells out an outline. -/
def ofOutline (id : Nat) (o : Outline) : Store :=
  let inBranches := (o.branches.flatMap (·.targets)).length
  let inPayloads := (o.payloads.flatMap (·.targets)).length
  let placed := (blank id o.registers o.instructions.length).issueLabelsAt
    (o.branches.flatMap (·.targets) ++ o.payloads.flatMap (·.targets))
  let filled := (placed.fill
    (Draft.labelInstructions id 0 inBranches o.instructions).toList).reindexFrom 0
  let handled := { filled.issueLabelsAt (o.tries.flatMap (·.places)) with
    tries := Draft.labelTries id (inBranches + inPayloads) o.tries }
  o.debugItems.foldl (fun s (index, item) => s.pinItem index item) handled

/-- The store of a finished method. -/
def ofMethod (id : Nat) (m : Method) : Except Error Store :=
  return ofOutline id (← m.outline)

end Store

end Dalvik
