import Dalvik.Method
import Dalvik.Outline.Basic

/-!
# Finished methods from outlines

The instructions are laid out, and every position becomes the address of its instruction.  This can
fail only for a branch that is too far from its target.
-/

namespace Dalvik

/-- The branch offset between two addresses, for the instruction at a position. -/
def branchOffset (index : Nat) (opcode : Opcode) (source target : Nat) : Except Error Int32 :=
  let offset : Int := target - source
  if -2147483648 ≤ offset && offset ≤ 2147483647 then .ok (Int32.ofInt offset)
  else .error (.branchOffsetOverflow index opcode offset)

/-- Puts a handler of a range in front of the blocks.  It joins the first block if that covers the
same range. -/
def TryBlock.consHandler (start count : UInt64) (handler : Handler) :
    List TryBlock → List TryBlock
  | [] => [⟨start, count, [handler]⟩]
  | block :: rest =>
    if block.start = start && block.count = count then
      ⟨start, count, handler :: block.handlers⟩ :: rest
    else ⟨start, count, [handler]⟩ :: block :: rest

namespace Outline

/-- The instruction at a position with offsets for targets.  A switch table is relative to the switch
which owns it, everything else to itself. -/
def emitInstruction (placed : Layout (Instruction Nat)) (owner? : Nat → Option Nat)
    (address index : Nat) (i : Instruction Nat) : Except Error (Instruction Int32) := do
  let source := match owner? index with
    | some switch => placed.offset switch
    | none => address
  let emitted ← i.mapTargetsM fun target =>
    branchOffset index i.opcode source (placed.offset target)
  match emitted.overlong? with
  | some offset => .error (.branchOffsetOverflow index i.opcode offset.toInt)
  | none => .ok emitted

/-- The blocks of the handlers.  Ranges that are empty are left out, and neighbours with the same
range share a block. -/
def emitTries (placed : Layout (Instruction Nat)) (entries : List (TryEntry Nat)) :
    List TryBlock :=
  entries.foldr (fun entry blocks =>
    let start := placed.offset entry.start
    let stop := placed.offset entry.stop
    if stop ≤ start then blocks
    else
      TryBlock.consHandler (UInt64.ofNat start) (UInt64.ofNat (stop - start))
        ⟨entry.type?, UInt64.ofNat (placed.offset entry.handler)⟩ blocks) []

/-- The finished method of an outline, `owner?` giving the position of the switch to which a switch
table belongs. -/
def toMethod (o : Outline) (owner? : Nat → Option Nat) : Except Error Method := do
  let placed : Layout (Instruction Nat) := .ofList o.instructions
  let instructions ← placed.toList.mapM fun (address, index, i) =>
    emitInstruction placed owner? address index i
  return .ofInstructions o.registers instructions (emitTries placed o.tries)
    (o.debugItems.map fun (index, item) => (UInt64.ofNat (placed.offset index), item))

end Outline

end Dalvik
