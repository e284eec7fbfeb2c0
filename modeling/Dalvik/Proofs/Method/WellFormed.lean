import Dalvik.Proofs.Code.Reach
import Dalvik.Method

/-!
# Well-formed methods

A finished method is well-formed (`Method.WellFormed`) if its instructions can be encoded, everything
that refers to a place in the code refers to the start of an instruction or to the end, payloads are
aligned, switches and tables belong together, and handlers and debug items are written down in the
one way in which they are written by `Outline.toMethod`.
-/

namespace Dalvik

namespace Code

variable {τ : Type}

/-- The position whose address is `a`, if `a` is the address of an instruction or of the end. -/
def stopAt (code : List (Instruction τ)) (a : Int) : Option Nat :=
  (List.range (code.length + 1)).find? fun k => (address code k : Int) = a

/-- The position at an address is the one that has this address. -/
theorem stopAt_eq_some_iff {code : List (Instruction τ)} {a : Int} {k : Nat} :
    stopAt code a = some k ↔ k ≤ code.length ∧ (address code k : Int) = a := by
  constructor
  · intro h
    have hmem := List.mem_of_find?_eq_some h
    have hk : (address code k : Int) = a := by simpa using List.find?_some h
    exact ⟨Nat.le_of_lt_succ (List.mem_range.1 hmem), hk⟩
  · rintro ⟨hk, ha⟩
    obtain ⟨j, hj⟩ : ∃ j, stopAt code a = some j := by
      rw [← Option.isSome_iff_exists, stopAt, List.find?_isSome]
      exact ⟨k, List.mem_range.2 (Nat.lt_succ_of_le hk), by simpa using ha⟩
    have hmem := List.mem_of_find?_eq_some hj
    have haddress : (address code j : Int) = a := by simpa using List.find?_some hj
    have heq : address code j = address code k := by omega
    rw [hj, address_inj (Nat.le_of_lt_succ (List.mem_range.1 hmem)) hk heq]

/-- Where an offset leads from a position. -/
def follow (code : List (Instruction Int32)) (k : Nat) (offset : Int32) : Option Nat :=
  stopAt code (address code k + offset.toInt)

end Code

namespace TryBlock

/-- What a block has to satisfy, where `boundary` are the addresses at which ranges may start and end
and exceptions may be handled. -/
structure WellFormed (boundary : Int → Prop) (block : TryBlock) : Prop where
  /-- The range is not empty. -/
  count : block.count ≠ 0
  /-- Something is handled. -/
  handlers : block.handlers ≠ []
  /-- The range starts at a boundary. -/
  start : boundary block.start.toNat
  /-- It ends at one. -/
  stop : boundary (block.start.toNat + block.count.toNat)
  /-- Exceptions are handled at boundaries. -/
  handled : ∀ handler ∈ block.handlers, boundary handler.address.toNat

/-- Two blocks cover the same range. -/
def SameRange (block block' : TryBlock) : Prop :=
  block.start = block'.start ∧ block.count = block'.count

end TryBlock

namespace Method

variable {m : Method}

@[simp] theorem instructions_ofInstructions (registers : UInt16) (code : List (Instruction Int32))
    (tries : List TryBlock) (items : List (UInt64 × DebugItem)) :
    (ofInstructions registers code tries items).instructions = code :=
  Layout.elems_ofList code

/-- The code is the layout of the instructions. -/
theorem code_ofInstructions (registers : UInt16) (code : List (Instruction Int32))
    (tries : List TryBlock) (items : List (UInt64 × DebugItem)) :
    (ofInstructions registers code tries items).code =
      .ofList (ofInstructions registers code tries items).instructions := by
  rw [instructions_ofInstructions]
  rfl

/-- An address is that of an instruction or of the end of the code. -/
def Boundary (m : Method) (a : Int) : Prop :=
  ∃ k, k ≤ m.instructions.length ∧ (Code.address m.instructions k : Int) = a

/-- The switch at position `switch` reaches the table at position `table`. -/
def Reaches (m : Method) (switch table : Nat) : Prop :=
  Code.Reaches (Code.follow m.instructions) m.instructions switch table

/-- What a method has to satisfy to survive being turned into a draft and back. -/
structure WellFormed (m : Method) : Prop where
  /-- The operands fit their fields. -/
  valid : ∀ i ∈ m.instructions, i.Valid
  /-- So do the branch offsets. -/
  fits : ∀ i ∈ m.instructions, i.overlong? = none
  /-- Branches lead to instructions or to the end. -/
  branches : ∀ k i, m.instructions[k]? = some i → i.isPayload = false →
    ∀ offset ∈ i.targets, m.Boundary (Code.address m.instructions k + offset.toInt)
  /-- So do the targets of a table, counted from the switch that reaches it. -/
  tables : ∀ switch k i, m.Reaches switch k → m.instructions[k]? = some i →
    ∀ offset ∈ i.targets, m.Boundary (Code.address m.instructions switch + offset.toInt)
  /-- Payloads are at even addresses. -/
  aligned : ∀ k p, m.instructions[k]? = some (.data p) → Code.address m.instructions k % 2 = 0
  /-- Every switch reaches a table. -/
  bound : ∀ k i, m.instructions[k]? = some i → i.opcode.isSwitch = true →
    ∃ table, m.Reaches k table
  /-- Every table is reached by exactly one switch. -/
  owned : ∀ k p, m.instructions[k]? = some (.data p) → p.isSwitchTable = true →
    ∃! switch, m.Reaches switch k
  /-- Ranges are not empty and have handlers, and everything they mention is the address of an
  instruction or of the end. -/
  tries : ∀ block ∈ m.tries, block.WellFormed m.Boundary
  /-- Neighbouring blocks have different ranges. -/
  distinct : m.tries.IsChain fun block block' => ¬ block.SameRange block'
  /-- Debug items are pinned to instructions or to the end. -/
  items : ∀ item ∈ m.debugItems, m.Boundary item.1.toNat
  /-- Debug items are written down front to back. -/
  sorted : m.debugItems.Pairwise fun item item' => item.1 ≤ item'.1

end Method

end Dalvik
