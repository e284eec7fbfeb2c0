import Dalvik.Instruction.Validity
import Dalvik.Label
import Dalvik.Text.Quoted

/-!
# Errors

Everything that can go wrong, by cause.  `Error.message` says it in words.
-/

namespace Dalvik

/-- Why an operation failed. -/
inductive Error where
  /-- There is no instruction at `index`, the method having `len` of them. -/
  | indexOutOfBounds (index len : Nat)
  /-- The address is negative or past the end of `units` code units. -/
  | addressOutOfBounds (address : Int) (units : Nat)
  /-- The label was issued by another draft, or not at all. -/
  | unknownLabel (label : Label)
  /-- The operands have a defect. -/
  | invalidInstruction (opcode : Opcode) (defect : Defect)
  /-- The switch at `index` targets the end of the method. -/
  | switchTargetsEnd (index : Nat)
  /-- The switch at `index` leads to something other than a payload. -/
  | switchWithoutPayload (index : Nat)
  /-- The switch at `index` leads to a payload of another kind. -/
  | mismatchedPayload (index : Nat) (expected found : Opcode)
  /-- Two switches lead to the payload at `index`. -/
  | ambiguousPayload (index : Nat)
  /-- The label is used but stands nowhere. -/
  | unplacedLabel (label : Label)
  /-- The branch at `index` is too far from its target. -/
  | branchOffsetOverflow (index : Nat) (opcode : Opcode) (offset : Int)
  /-- No instruction starts with the code unit at `address`. -/
  | unknownOpcode (address : Nat) (value : UInt16)
  /-- The code ends within the instruction at `address`. -/
  | truncatedInstruction (address : Nat)
  /-- Writing the code failed. -/
  | io (cause : String)
  /-- Names were used that were never placed. -/
  | methodNotFinished (names : List String)
  /-- A name was placed twice. -/
  | duplicateLabel (name : String)
  deriving DecidableEq

namespace Error

/-- The error in words. -/
def message : Error → String
  | indexOutOfBounds index len => s!"index {index} out of bounds (method has {len} instructions)"
  | addressOutOfBounds address units =>
    s!"address {address} out of bounds (method has {units} code units)"
  | unknownLabel label => s!"unknown label {label.name}"
  | invalidInstruction opcode defect => s!"invalid {opcode.name} instruction: {defect.reason}"
  | switchTargetsEnd index => s!"switch instruction at index {index} targets the end of the method"
  | switchWithoutPayload index =>
    s!"switch instruction at index {index} does not refer to a payload"
  | mismatchedPayload index expected found =>
    s!"switch instruction at index {index} expects a {expected.name} but refers to a {found.name}"
  | ambiguousPayload index => s!"payload at index {index} is referenced by more than one switch"
  | unplacedLabel label => s!"label {label.name} was never placed"
  | branchOffsetOverflow index opcode offset =>
    s!"offset {offset} of {opcode.name} at index {index} does not fit its format"
  | unknownOpcode address value =>
    s!"unknown opcode {Text.hexAddress value.toNat} at address {address}"
  | truncatedInstruction address => s!"truncated instruction at address {address}"
  | io cause => s!"I/O error: {cause}"
  | methodNotFinished names => "method has unplaced labels: " ++ String.intercalate ", " names
  | duplicateLabel name => s!"label {Text.quoted name} placed twice"

instance : ToString Error where
  toString := message

/-- The failure behind this one, if it only passes another on. -/
def cause? : Error → Option String
  | io cause => some cause
  | _ => none

end Error

/-- Whether an instruction is valid, with the first defect as the error. -/
def Instruction.validate {τ : Type} (i : Instruction τ) : Except Error Unit :=
  match i.defect? with
  | none => .ok ()
  | some defect => .error (.invalidInstruction i.opcode defect)

end Dalvik
