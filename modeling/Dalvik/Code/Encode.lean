import Dalvik.Code.CodeUnit
import Dalvik.Instruction.Basic

/-!
# Encoding

The first unit of an instruction holds the opcode in its low byte and, for most formats, operands
in its high byte.  The only obstacle to encoding is a branch offset that is too wide for its field;
operands that no field has room for lose their high bits, which is why methods validate their
instructions beforehand.
-/

namespace Dalvik

/-- An offset too wide for the instruction that carries it. -/
structure OffsetOverflow where
  /-- The branch. -/
  opcode : Opcode
  /-- Its offset. -/
  offset : Int32
  deriving DecidableEq

/-- The overflow in words. -/
def OffsetOverflow.message (e : OffsetOverflow) : String :=
  s!"offset {e.offset.toInt} does not fit in {e.opcode.name}"

namespace Code

/-- The first unit of an instruction: the opcode, and `high` merged into the high byte. -/
def headUnit (opcode : Opcode) (high : UInt8) : UInt16 :=
  unitOf (lowByte opcode.value) (highByte opcode.value ||| high)

/-- A branch offset as eight bits. -/
def offset8 (opcode : Opcode) (offset : Int32) : Except OffsetOverflow UInt8 :=
  if Reach.byte.fits offset.toInt then .ok offset.toInt8.toUInt8 else .error ⟨opcode, offset⟩

/-- A branch offset as one unit. -/
def offset16 (opcode : Opcode) (offset : Int32) : Except OffsetOverflow UInt16 :=
  if Reach.word.fits offset.toInt then .ok offset.toInt16.toUInt16 else .error ⟨opcode, offset⟩

/-- The register at a position of an argument list; positions past the end count as register 0. -/
def argument (registers : List UInt8) (position : Nat) : UInt8 := registers.getD position 0

/-- A list of argument registers with its index: the count and the fifth register go into the first
unit, the index follows, and the first four registers share the last unit. -/
def argumentUnits (opcode : Opcode) (registers : List UInt8) (index : UInt16) : List UInt16 :=
  [headUnit opcode (nibbles (argument registers 4) (UInt8.ofNat registers.length)),
    index,
    unitOf (nibbles (argument registers 0) (argument registers 1))
      (nibbles (argument registers 2) (argument registers 3))]

end Code

open Code

/-- The units of an instruction with the given operands. -/
def Operands.encode (opcode : Opcode) : Operands Int32 → Except OffsetOverflow (List UInt16)
  | f10x => .ok [headUnit opcode 0]
  | jump .byte t => return [headUnit opcode (← offset8 opcode t)]
  | jump .word t => return [headUnit opcode 0, ← offset16 opcode t]
  | jump .long t => .ok (headUnit opcode 0 :: wordUnits t.toUInt32)
  | f11n a literal => .ok [headUnit opcode (nibbles a literal.toUInt8)]
  | f11x a => .ok [headUnit opcode a]
  | f12x a b => .ok [headUnit opcode (nibbles a b)]
  | f20bc error ref => .ok [headUnit opcode error, ref]
  | f21c a ref => .ok [headUnit opcode a, ref]
  | f21ih a literal => .ok [headUnit opcode a, (literal.toUInt32 / 65536).toUInt16]
  | f21lh a literal => .ok [headUnit opcode a, (literal.toUInt64 / 281474976710656).toUInt16]
  | f21s a literal => .ok [headUnit opcode a, literal.toUInt16]
  | f21t a t => return [headUnit opcode a, ← offset16 opcode t]
  | f22b a b literal => .ok [headUnit opcode a, unitOf b literal.toUInt8]
  | f22c a b ref => .ok [headUnit opcode (nibbles a b), ref]
  | f22cs a b offset => .ok [headUnit opcode (nibbles a b), offset]
  | f22s a b literal => .ok [headUnit opcode (nibbles a b), literal.toUInt16]
  | f22t a b t => return [headUnit opcode (nibbles a b), ← offset16 opcode t]
  | f22x a b => .ok [headUnit opcode a, b]
  | f23x a b c => .ok [headUnit opcode a, unitOf b c]
  | f31c a ref => .ok (headUnit opcode a :: wordUnits ref)
  | f31i a literal => .ok (headUnit opcode a :: wordUnits literal.toUInt32)
  | f31t a t => .ok (headUnit opcode a :: wordUnits t.toUInt32)
  | f32x a b => .ok [headUnit opcode 0, a, b]
  | f35 _ registers index => .ok (argumentUnits opcode registers index)
  | f3r _ first count index => .ok [headUnit opcode count, index, first]
  | f45cc registers ref proto => .ok (argumentUnits opcode registers ref ++ [proto])
  | f4rcc first count ref proto => .ok [headUnit opcode count, ref, first, proto]
  | f51l a literal => .ok (headUnit opcode a :: longUnits literal.toUInt64)

/-- The units of a payload.  Counts are cut to their fields.  The elements of an array are counted
as single bytes if they have no width, and odd data is padded with a zero byte. -/
def Payload.encode : Payload Int32 → List UInt16
  | packed firstKey targets =>
    Opcode.packedSwitchPayload.value :: UInt16.ofNat targets.length ::
      (wordUnits firstKey.toUInt32 ++ targets.flatMap fun t => wordUnits t.toUInt32)
  | sparse cases =>
    Opcode.sparseSwitchPayload.value :: UInt16.ofNat cases.length ::
      ((cases.flatMap fun c => wordUnits c.key.toUInt32) ++
        cases.flatMap fun c => wordUnits c.target.toUInt32)
  | array width data =>
    Opcode.arrayPayload.value :: width ::
      (wordUnits (UInt32.ofNat (data.length / max width.toNat 1)) ++
        unitsOfBytes (data ++ List.replicate (data.length % 2) 0))

/-- The units of an instruction. -/
def Instruction.encode : Instruction Int32 → Except OffsetOverflow (List UInt16)
  | op opcode args => args.encode opcode
  | data payload => .ok payload.encode

namespace Code

/-- The bytes of a sequence of instructions. -/
def encode (instructions : List (Instruction Int32)) : Except OffsetOverflow (List UInt8) :=
  return bytesOfUnits (← instructions.mapM Instruction.encode).flatten

end Code

end Dalvik
