import Dalvik.Instruction.Basic

/-!
# Validity of instructions

Operands may hold values that their format has no room for.  `Instruction.validate` finds the first
such defect; an instruction without one can be encoded and is read back unchanged.
-/

namespace Dalvik

/-- What can be wrong with the operands of an instruction. -/
inductive Defect where
  /-- The opcode prescribes another format. -/
  | format
  /-- A register is above 15 where four bits are stored. -/
  | register
  /-- A literal is outside -8 … 7 where four bits are stored. -/
  | literal
  /-- A literal has low bits where only the high 16 are stored. -/
  | lowBits
  /-- More registers are listed than a call can pass. -/
  | registerCount
  /-- A range of registers runs past the last one. -/
  | registerRange
  /-- A switch has more targets than its count can say. -/
  | targetCount
  /-- The keys of a sparse switch do not strictly increase. -/
  | keyOrder
  /-- Array elements have no machine width. -/
  | elementWidth
  /-- Array data ends within an element. -/
  | partialElement
  /-- An array has more elements than its count can say. -/
  | elementCount
  deriving DecidableEq

/-- A defect in words. -/
def Defect.reason : Defect → String
  | format => "opcode does not use this format"
  | register => "register must fit in 4 bits"
  | literal => "literal must fit in 4 bits"
  | lowBits => "only the high 16 bits of the literal may be set"
  | registerCount => "at most 5 registers can be passed"
  | registerRange => "register range runs past the last register"
  | targetCount => "too many switch targets"
  | keyOrder => "sparse switch keys must be sorted and distinct"
  | elementWidth => "element width must be 1, 2, 4, or 8"
  | partialElement => "data is not a whole number of elements"
  | elementCount => "too many array elements"

/-- Reports a defect unless a test holds. -/
def Defect.unless (defect : Defect) (holds : Bool) : Option Defect :=
  if holds then none else some defect

namespace Operands

variable {τ : Type}

/-- The first operand that its format has no room for. -/
def defect? : Operands τ → Option Defect
  | f11n a literal =>
    Defect.register.unless (a < 16) <|> Defect.literal.unless (-8 ≤ literal && literal ≤ 7)
  | f12x a b | f22c a b _ | f22cs a b _ | f22s a b _ | f22t a b _ =>
    Defect.register.unless (a < 16 && b < 16)
  | f21ih _ literal => Defect.lowBits.unless (literal.toInt % 0x10000 = 0)
  | f21lh _ literal => Defect.lowBits.unless (literal.toInt % 0x1000000000000 = 0)
  | f35 _ registers _ | f45cc registers _ _ =>
    Defect.registerCount.unless (registers.length ≤ 5) <|>
      Defect.register.unless (registers.all (· < 16))
  | f3r _ first count _ | f4rcc first count _ _ =>
    Defect.registerRange.unless (first.toNat + count.toNat ≤ 0x10000)
  | _ => none

end Operands

/-- Whether every element is below its successor. -/
def strictlyIncreasing : List Int32 → Bool
  | a :: b :: rest => a < b && strictlyIncreasing (b :: rest)
  | _ => true

namespace Payload

variable {τ : Type}

/-- The first part of a payload that its format has no room for. -/
def defect? : Payload τ → Option Defect
  | packed _ targets => Defect.targetCount.unless (targets.length ≤ 0xffff)
  | sparse cases =>
    Defect.targetCount.unless (cases.length ≤ 0xffff) <|>
      Defect.keyOrder.unless (strictlyIncreasing (cases.map (·.key)))
  | array width data =>
    Defect.elementWidth.unless ([1, 2, 4, 8].contains width) <|>
      Defect.partialElement.unless (data.length % width.toNat = 0) <|>
      Defect.elementCount.unless (data.length / width.toNat ≤ 0xffffffff)

end Payload

namespace Instruction

variable {τ : Type}

/-- The first defect of an instruction.  Its format comes first, then its operands in the order in
which they are written. -/
def defect? : Instruction τ → Option Defect
  | op opcode args => if opcode.format = args.format then args.defect? else some .format
  | data payload => payload.defect?

/-- An instruction is valid when nothing is wrong with it. -/
def Valid (i : Instruction τ) : Prop := i.defect? = none

instance (i : Instruction τ) : Decidable i.Valid := inferInstanceAs (Decidable (_ = none))

end Instruction

end Dalvik
