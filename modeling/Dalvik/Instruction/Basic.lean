import Dalvik.Opcode

/-!
# Instructions

An instruction is an opcode with operands, or a payload: a block of data that an instruction
elsewhere points at.  Both are generic in how a branch target is written, because the same
instruction is met with signed offsets (in finished code), with labels (while a method is edited)
and with positions in the list of instructions.

Operand fields have the smallest machine width that holds them.  Where a format has a narrower
field (four-bit registers, literals of which only the high bits are stored), nothing here forbids a
value that does not fit; `Instruction.validate` does.
-/

namespace Dalvik

/-- The operands of an instruction.  There is one constructor per way of laying them out, so the
operands determine the format; formats that differ only in what an offset or an index means share a
constructor. -/
inductive Operands (τ : Type) where
  /-- No operand. -/
  | f10x
  /-- An unconditional branch: formats `10t`, `20t` and `30t`. -/
  | jump (reach : Reach) (target : τ)
  /-- A register and a literal of four bits each. -/
  | f11n (a : UInt8) (literal : Int8)
  /-- One register. -/
  | f11x (a : UInt8)
  /-- Two registers of four bits each. -/
  | f12x (a b : UInt8)
  /-- What failed verification, and a reference to it. -/
  | f20bc (error : UInt8) (ref : UInt16)
  /-- A register and a pool reference. -/
  | f21c (a : UInt8) (ref : UInt16)
  /-- A register and a literal of which the high 16 of 32 bits are stored. -/
  | f21ih (a : UInt8) (literal : Int32)
  /-- A register and a literal of which the high 16 of 64 bits are stored. -/
  | f21lh (a : UInt8) (literal : Int64)
  /-- A register and a 16-bit literal. -/
  | f21s (a : UInt8) (literal : Int16)
  /-- A register and a branch target within 16 bits. -/
  | f21t (a : UInt8) (target : τ)
  /-- Two registers and an 8-bit literal. -/
  | f22b (a b : UInt8) (literal : Int8)
  /-- Two four-bit registers and a pool reference. -/
  | f22c (a b : UInt8) (ref : UInt16)
  /-- Two four-bit registers and the byte offset of a field. -/
  | f22cs (a b : UInt8) (offset : UInt16)
  /-- Two four-bit registers and a 16-bit literal. -/
  | f22s (a b : UInt8) (literal : Int16)
  /-- Two four-bit registers and a branch target within 16 bits. -/
  | f22t (a b : UInt8) (target : τ)
  /-- A register and one from the full range. -/
  | f22x (a : UInt8) (b : UInt16)
  /-- Three registers. -/
  | f23x (a b c : UInt8)
  /-- A register and a wide pool reference. -/
  | f31c (a : UInt8) (ref : UInt32)
  /-- A register and a 32-bit literal. -/
  | f31i (a : UInt8) (literal : Int32)
  /-- A register and a payload. -/
  | f31t (a : UInt8) (target : τ)
  /-- Two registers from the full range. -/
  | f32x (a b : UInt16)
  /-- Up to five four-bit registers and an index: formats `35c`, `35mi` and `35ms`. -/
  | f35 (kind : IndexKind) (registers : List UInt8) (index : UInt16)
  /-- `count` registers from `first` on and an index: formats `3rc`, `3rmi` and `3rms`. -/
  | f3r (kind : IndexKind) (first : UInt16) (count : UInt8) (index : UInt16)
  /-- Up to five four-bit registers, a method and a prototype. -/
  | f45cc (registers : List UInt8) (ref proto : UInt16)
  /-- `count` registers from `first` on, a method and a prototype. -/
  | f4rcc (first : UInt16) (count : UInt8) (ref proto : UInt16)
  /-- A register and a 64-bit literal. -/
  | f51l (a : UInt8) (literal : Int64)
  deriving DecidableEq, Inhabited

namespace Operands

variable {τ σ : Type}

/-- The format that lays operands out this way. -/
def format : Operands τ → Format
  | f10x => .f10x
  | jump reach _ => reach.format
  | f11n .. => .f11n
  | f11x .. => .f11x
  | f12x .. => .f12x
  | f20bc .. => .f20bc
  | f21c .. => .f21c
  | f21ih .. => .f21ih
  | f21lh .. => .f21lh
  | f21s .. => .f21s
  | f21t .. => .f21t
  | f22b .. => .f22b
  | f22c .. => .f22c
  | f22cs .. => .f22cs
  | f22s .. => .f22s
  | f22t .. => .f22t
  | f22x .. => .f22x
  | f23x .. => .f23x
  | f31c .. => .f31c
  | f31i .. => .f31i
  | f31t .. => .f31t
  | f32x .. => .f32x
  | f35 kind .. => kind.listFormat
  | f3r kind .. => kind.rangeFormat
  | f45cc .. => .f45cc
  | f4rcc .. => .f4rcc
  | f51l .. => .f51l

/-- Size in code units of an instruction with these operands. -/
def units : Operands τ → Nat
  | jump reach _ => reach.units
  | f10x | f11n .. | f11x .. | f12x .. => 1
  | f20bc .. | f21c .. | f21ih .. | f21lh .. | f21s .. | f21t .. | f22b .. | f22c .. | f22cs ..
  | f22s .. | f22t .. | f22x .. | f23x .. => 2
  | f31c .. | f31i .. | f31t .. | f32x .. | f35 .. | f3r .. => 3
  | f45cc .. | f4rcc .. => 4
  | f51l .. => 5

/-- The branch targets among the operands; there is at most one. -/
def targets : Operands τ → List τ
  | jump _ t | f21t _ t | f22t _ _ t | f31t _ t => [t]
  | _ => []

/-- How wide a field the format has for the offset to the branch target. -/
def reach : Operands τ → Reach
  | jump reach _ => reach
  | f21t .. | f22t .. => .word
  | _ => .long

/-- Converts the branch target and keeps everything else. -/
def mapTargetsM {m : Type → Type} [Monad m] (f : τ → m σ) : Operands τ → m (Operands σ)
  | f10x => pure f10x
  | jump reach t => return jump reach (← f t)
  | f11n a literal => pure (f11n a literal)
  | f11x a => pure (f11x a)
  | f12x a b => pure (f12x a b)
  | f20bc error ref => pure (f20bc error ref)
  | f21c a ref => pure (f21c a ref)
  | f21ih a literal => pure (f21ih a literal)
  | f21lh a literal => pure (f21lh a literal)
  | f21s a literal => pure (f21s a literal)
  | f21t a t => return f21t a (← f t)
  | f22b a b literal => pure (f22b a b literal)
  | f22c a b ref => pure (f22c a b ref)
  | f22cs a b offset => pure (f22cs a b offset)
  | f22s a b literal => pure (f22s a b literal)
  | f22t a b t => return f22t a b (← f t)
  | f22x a b => pure (f22x a b)
  | f23x a b c => pure (f23x a b c)
  | f31c a ref => pure (f31c a ref)
  | f31i a literal => pure (f31i a literal)
  | f31t a t => return f31t a (← f t)
  | f32x a b => pure (f32x a b)
  | f35 kind registers index => pure (f35 kind registers index)
  | f3r kind first count index => pure (f3r kind first count index)
  | f45cc registers ref proto => pure (f45cc registers ref proto)
  | f4rcc first count ref proto => pure (f4rcc first count ref proto)
  | f51l a literal => pure (f51l a literal)

/-- The size is the one that the format prescribes. -/
theorem units?_format (args : Operands τ) : args.format.units? = some args.units := by
  cases args with
  | jump reach => cases reach <;> rfl
  | f35 kind => cases kind <;> rfl
  | f3r kind => cases kind <;> rfl
  | _ => rfl

end Operands

/-- One way out of a switch over scattered keys. -/
structure SwitchCase (τ : Type) where
  /-- Value that selects this case. -/
  key : Int32
  /-- Where the case continues. -/
  target : τ
  deriving DecidableEq, Inhabited

/-- Data between the instructions of a method.  In finished code the targets of a switch are
relative to the switch instruction, not to its payload. -/
inductive Payload (τ : Type) where
  /-- Targets for consecutive keys from `firstKey` on. -/
  | packed (firstKey : Int32) (targets : List τ)
  /-- Targets for listed keys. -/
  | sparse (cases : List (SwitchCase τ))
  /-- Initial contents of an array, as little-endian elements of `width` bytes. -/
  | array (width : UInt16) (data : List UInt8)
  deriving DecidableEq, Inhabited

namespace Payload

variable {τ σ : Type}

/-- The marker of the payload. -/
def opcode : Payload τ → Opcode
  | packed .. => .packedSwitchPayload
  | sparse .. => .sparseSwitchPayload
  | array .. => .arrayPayload

/-- The format of the payload. -/
def format : Payload τ → Format
  | packed .. => .packedSwitch
  | sparse .. => .sparseSwitch
  | array .. => .arrayData

/-- Size in code units.  Array data is rounded up to a whole unit. -/
def units : Payload τ → Nat
  | packed _ targets => targets.length * 2 + 4
  | sparse cases => cases.length * 4 + 2
  | array _ data => (data.length + 1) / 2 + 4

/-- Whether the payload belongs to a switch. -/
def isSwitchTable : Payload τ → Bool
  | packed .. | sparse .. => true
  | array .. => false

/-- The branch targets, in the order in which they are encoded. -/
def targets : Payload τ → List τ
  | packed _ targets => targets
  | sparse cases => cases.map (·.target)
  | array .. => []

/-- Converts the branch targets in order and keeps everything else. -/
def mapTargetsM {m : Type → Type} [Monad m] (f : τ → m σ) : Payload τ → m (Payload σ)
  | packed firstKey targets => return packed firstKey (← targets.mapM f)
  | sparse cases => return sparse (← cases.mapM fun c => return ⟨c.key, ← f c.target⟩)
  | array width data => pure (array width data)

end Payload

/-- An instruction, or a payload among the instructions. -/
inductive Instruction (τ : Type) where
  /-- An instruction that can be executed. -/
  | op (opcode : Opcode) (args : Operands τ)
  /-- Data that an instruction points at. -/
  | data (payload : Payload τ)
  deriving DecidableEq, Inhabited

namespace Instruction

variable {τ σ : Type}

/-- The instruction that does nothing and fills gaps. -/
def nop : Instruction τ := .op .nop .f10x

/-- Whether this is the plain `nop`. -/
def isNop : Instruction τ → Bool
  | op .nop .f10x => true
  | _ => false

/-- The unconditional jump with a given reach. -/
def goto (reach : Reach) (target : τ) : Instruction τ := .op reach.goto (.jump reach target)

/-- The opcode, for a payload its marker. -/
def opcode : Instruction τ → Opcode
  | op opcode _ => opcode
  | data payload => payload.opcode

/-- The format in which the operands are laid out. -/
def format : Instruction τ → Format
  | op _ args => args.format
  | data payload => payload.format

/-- Size in code units. -/
def units : Instruction τ → Nat
  | op _ args => args.units
  | data payload => payload.units

/-- Whether this is data. -/
def isPayload : Instruction τ → Bool
  | op .. => false
  | data _ => true

/-- The branch targets, in the order in which they are encoded. -/
def targets : Instruction τ → List τ
  | op _ args => args.targets
  | data payload => payload.targets

/-- Converts the branch targets in order and keeps everything else.  With a monad that can fail, the
first target that cannot be converted decides the failure. -/
def mapTargetsM {m : Type → Type} [Monad m] (f : τ → m σ) : Instruction τ → m (Instruction σ)
  | op opcode args => return op opcode (← args.mapTargetsM f)
  | data payload => return data (← payload.mapTargetsM f)

/-- The offset of a branch that is too far for its field. -/
def overlong? : Instruction Int32 → Option Int32
  | op _ args => args.targets.find? fun offset => !args.reach.fits offset.toInt
  | data _ => none

/-- Exactly the payloads are in a payload format. -/
theorem isPayload_format (i : Instruction τ) : i.format.isPayload = i.isPayload := by
  cases i with
  | op o args =>
    cases args with
    | jump reach => cases reach <;> rfl
    | f35 kind => cases kind <;> rfl
    | f3r kind => cases kind <;> rfl
    | _ => rfl
  | data p => cases p <;> rfl

/-- Every instruction takes up room, so addresses strictly increase. -/
theorem units_pos (i : Instruction τ) : 0 < i.units := by
  cases i with
  | op o args =>
    cases args with
    | jump reach => cases reach <;> exact Nat.zero_lt_succ _
    | _ => exact Nat.zero_lt_succ _
  | data p => cases p <;> simp [units, Payload.units]

end Instruction

end Dalvik
