import Dalvik.Code.Decode
import Dalvik.Code.Encode
import Dalvik.Debug
import Dalvik.Layout

/-!
# Finished methods

In a finished method branches are offsets from instruction to instruction, and everything else
refers to code addresses.  Nothing is checked when a method is put together; code that was decoded
from a file need not make sense.
-/

namespace Dalvik

instance {τ : Type} : HasWidth (Instruction τ) := ⟨Instruction.units⟩

/-- Where an exception is handled. -/
structure Handler where
  /-- Pool index of the caught type; every exception is caught if there is none. -/
  type? : Option UInt32
  /-- Address at which the handler starts. -/
  address : UInt64
  deriving DecidableEq, Inhabited

/-- A range of code with its exception handlers. -/
structure TryBlock where
  /-- First address of the range. -/
  start : UInt64
  /-- Length of the range in code units. -/
  count : UInt64
  /-- The handlers, the first that applies being used. -/
  handlers : List Handler
  deriving DecidableEq, Inhabited

/-- A finished method body. -/
structure Method where
  /-- Number of registers. -/
  registers : UInt16
  /-- The instructions at their addresses. -/
  code : Layout (Instruction Int32)
  /-- The ranges covered by exception handlers. -/
  tries : List TryBlock
  /-- The debug items with the addresses at which they take effect. -/
  debugItems : List (UInt64 × DebugItem)
  deriving DecidableEq

namespace Method

/-- The method with the given instructions. -/
def ofInstructions (registers : UInt16) (instructions : List (Instruction Int32))
    (tries : List TryBlock) (debugItems : List (UInt64 × DebugItem)) : Method :=
  ⟨registers, .ofList instructions, tries, debugItems⟩

/-- The method whose code is stored in `bytes`. -/
def ofBytes (registers : UInt16) (bytes : List UInt8) (tries : List TryBlock)
    (debugItems : List (UInt64 × DebugItem)) : Except Error Method :=
  return ofInstructions registers (← Code.decode bytes) tries debugItems

/-- The instructions in order. -/
def instructions (m : Method) : List (Instruction Int32) := m.code.elems

/-- The code as bytes. -/
def codeBytes (m : Method) : Except Error (List UInt8) :=
  (Code.encode m.instructions).mapError fun e => .io e.message

/-- Size of the code in code units. -/
def units (m : Method) : Nat := m.code.width

/-- The instruction that starts at an address. -/
def instructionAt? (m : Method) (address : Nat) : Option (Instruction Int32) :=
  match m.code.locate address with
  | .start _ i => some i
  | _ => none

end Method

end Dalvik
