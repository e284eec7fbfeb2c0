import Dalvik.Code.CodeUnit
import Dalvik.Error

/-!
# Decoding

Code is read one instruction at a time.  `Instruction.decode` looks at the units from the start of
an instruction on and knows nothing of what came before, so it says what is wrong without an
address; `Code.decode` adds the address of the instruction.
-/

namespace Dalvik

/-- Why no instruction can be read. -/
inductive DecodeFailure where
  /-- The code ends within the instruction. -/
  | truncated
  /-- The first unit starts no instruction. -/
  | unknown (value : UInt16)
  /-- The operands are defective. -/
  | invalid (opcode : Opcode) (defect : Defect)
  deriving DecidableEq

/-- The failure of the instruction at an address as an error. -/
def DecodeFailure.at (address : Nat) : DecodeFailure → Error
  | truncated => .truncatedInstruction address
  | unknown value => .unknownOpcode address value
  | invalid opcode defect => .invalidInstruction opcode defect

namespace Code

/-- Reads one unit. -/
def take1 {α : Type} (units : List UInt16) (k : UInt16 → α) : Except DecodeFailure α :=
  match units with
  | u :: _ => .ok (k u)
  | _ => .error .truncated

/-- Reads two units. -/
def take2 {α : Type} (units : List UInt16) (k : UInt16 → UInt16 → α) : Except DecodeFailure α :=
  match units with
  | u :: v :: _ => .ok (k u v)
  | _ => .error .truncated

/-- Reads three units. -/
def take3 {α : Type} (units : List UInt16) (k : UInt16 → UInt16 → UInt16 → α) :
    Except DecodeFailure α :=
  match units with
  | u :: v :: w :: _ => .ok (k u v w)
  | _ => .error .truncated

/-- Reads four units. -/
def take4 {α : Type} (units : List UInt16) (k : UInt16 → UInt16 → UInt16 → UInt16 → α) :
    Except DecodeFailure α :=
  match units with
  | u :: v :: w :: x :: _ => .ok (k u v w x)
  | _ => .error .truncated

/-- Reads `count` units. -/
def takeMany (count : Nat) (units : List UInt16) : Except DecodeFailure (List UInt16) :=
  let taken := units.take count
  if taken.length = count then .ok taken else .error .truncated

/-- The opcode that a first unit announces.  A zero low byte is shared by `nop` and the payloads, so
there the whole unit counts. -/
def opcode? (first : UInt16) : Option Opcode :=
  Opcode.ofValue? (if lowByte first = 0 then first else (lowByte first).toUInt16)

/-- Registers of a call, from the high byte of its first unit and from the unit that packs the first
four. -/
def argumentsOf (high : UInt8) (packed : UInt16) : List UInt8 :=
  [lowNibble (lowByte packed), highNibble (lowByte packed),
    lowNibble (highByte packed), highNibble (highByte packed), lowNibble high].take
    (highNibble high).toNat

/-- Refuses a call that announces more than five registers. -/
def checkArgumentCount (opcode : Opcode) (high : UInt8) : Except DecodeFailure Unit :=
  if highNibble high ≤ 5 then .ok () else .error (.invalid opcode .registerCount)

end Code

open Code

/-- Reads the operands of a format, given the high byte of the first unit and the units after it.
Payload formats have no operands of this kind. -/
def Operands.decode (opcode : Opcode) (high : UInt8) (rest : List UInt16) :
    Format → Except DecodeFailure (Operands Int32)
  | .f10x => .ok .f10x
  | .f10t => .ok (.jump .byte high.toInt8.toInt32)
  | .f20t => take1 rest fun u => .jump .word u.toInt16.toInt32
  | .f30t => take2 rest fun u v => .jump .long (wordOf u v).toInt32
  | .f11n => .ok (.f11n (lowNibble high) (highNibbleSigned high))
  | .f11x => .ok (.f11x high)
  | .f12x => .ok (.f12x (lowNibble high) (highNibble high))
  | .f20bc => take1 rest fun u => .f20bc high u
  | .f21c => take1 rest fun u => .f21c high u
  | .f21ih => take1 rest fun u => .f21ih high (65536 * u.toUInt32).toInt32
  | .f21lh => take1 rest fun u => .f21lh high (281474976710656 * u.toUInt64).toInt64
  | .f21s => take1 rest fun u => .f21s high u.toInt16
  | .f21t => take1 rest fun u => .f21t high u.toInt16.toInt32
  | .f22b => take1 rest fun u => .f22b high (lowByte u) (highByte u).toInt8
  | .f22c => take1 rest fun u => .f22c (lowNibble high) (highNibble high) u
  | .f22cs => take1 rest fun u => .f22cs (lowNibble high) (highNibble high) u
  | .f22s => take1 rest fun u => .f22s (lowNibble high) (highNibble high) u.toInt16
  | .f22t => take1 rest fun u => .f22t (lowNibble high) (highNibble high) u.toInt16.toInt32
  | .f22x => take1 rest fun u => .f22x high u
  | .f23x => take1 rest fun u => .f23x high (lowByte u) (highByte u)
  | .f31c => take2 rest fun u v => .f31c high (wordOf u v)
  | .f31i => take2 rest fun u v => .f31i high (wordOf u v).toInt32
  | .f31t => take2 rest fun u v => .f31t high (wordOf u v).toInt32
  | .f32x => take2 rest fun u v => .f32x u v
  | .f35c => do
    checkArgumentCount opcode high
    take2 rest fun u v => .f35 .pool (argumentsOf high v) u
  | .f35mi => do
    checkArgumentCount opcode high
    take2 rest fun u v => .f35 .inlined (argumentsOf high v) u
  | .f35ms => do
    checkArgumentCount opcode high
    take2 rest fun u v => .f35 .vtable (argumentsOf high v) u
  | .f3rc => take2 rest fun u v => .f3r .pool v high u
  | .f3rmi => take2 rest fun u v => .f3r .inlined v high u
  | .f3rms => take2 rest fun u v => .f3r .vtable v high u
  | .f45cc => do
    checkArgumentCount opcode high
    take3 rest fun u v w => .f45cc (argumentsOf high v) u w
  | .f4rcc => take3 rest fun u v w => .f4rcc v high u w
  | .f51l => take4 rest fun u v w x => .f51l high (longOf (wordOf u v) (wordOf w x)).toInt64
  | .packedSwitch | .sparseSwitch | .arrayData => .error .truncated

namespace Payload

/-- Reads a packed switch table, given the units after its marker. -/
def decodePacked : List UInt16 → Except DecodeFailure (Payload Int32)
  | count :: low :: high :: rest => do
    let units ← takeMany (2 * count.toNat) rest
    return .packed (wordOf low high).toInt32 (wordsOfUnits units)
  | _ => .error .truncated

/-- Reads a sparse switch table, given the units after its marker: all keys, then all targets. -/
def decodeSparse : List UInt16 → Except DecodeFailure (Payload Int32)
  | count :: rest => do
    let units ← takeMany (4 * count.toNat) rest
    let words := wordsOfUnits units
    return .sparse ((words.take count.toNat).zipWith SwitchCase.mk (words.drop count.toNat))
  | _ => .error .truncated

/-- Reads array data, given the units after its marker. -/
def decodeArray : List UInt16 → Except DecodeFailure (Payload Int32)
  | width :: low :: high :: rest => do
    let size := width.toNat * (wordOf low high).toNat
    let units ← takeMany ((size + 1) / 2) rest
    return .array width ((bytesOfUnits units).take size)
  | _ => .error .truncated

end Payload

namespace Instruction

/-- Reads what follows the first unit of an instruction. -/
def decodeRest (opcode : Opcode) (high : UInt8) (rest : List UInt16) :
    Except DecodeFailure (Instruction Int32) :=
  match opcode.format with
  | .packedSwitch => return .data (← Payload.decodePacked rest)
  | .sparseSwitch => return .data (← Payload.decodeSparse rest)
  | .arrayData => return .data (← Payload.decodeArray rest)
  | format => return .op opcode (← Operands.decode opcode high rest format)

/-- Reads the instruction at the start of a sequence of units. -/
def decode : List UInt16 → Except DecodeFailure (Instruction Int32)
  | [] => .error .truncated
  | first :: rest =>
    match opcode? first with
    | none => .error (.unknown first)
    | some opcode => decodeRest opcode (highByte first) rest

end Instruction

namespace Code

/-- Reads the instructions in a sequence of units. -/
def decodeUnits (units : List UInt16) : Except Error (List (Instruction Int32)) := go [] 0 0 units
where
  /-- Reads the units from `address` on, and puts the instructions behind those that are given last
  one first.  The first `skip` units still belong to the instruction read last. -/
  go (before : List (Instruction Int32)) (address : Nat) :
      Nat → List UInt16 → Except Error (List (Instruction Int32))
    | _, [] => .ok before.reverse
    | skip + 1, _ :: rest => go before (address + 1) skip rest
    | 0, first :: rest =>
      match Instruction.decode (first :: rest) with
      | .error failure => .error (failure.at address)
      | .ok i => go (i :: before) (address + 1) (i.units - 1) rest

/-- Reads the instructions in a sequence of bytes.  An odd byte at the end is the start of an
instruction that is not all there. -/
def decode (bytes : List UInt8) : Except Error (List (Instruction Int32)) := do
  let units := unitsOfBytes bytes
  let instructions ← decodeUnits units
  if bytes.length % 2 = 0 then .ok instructions else .error (.truncatedInstruction units.length)

end Code

end Dalvik
