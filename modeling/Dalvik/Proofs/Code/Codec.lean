import Dalvik.Proofs.Code.Fields
import Dalvik.Proofs.Instruction.Formats
import Dalvik.Proofs.Outcome
import Mathlib.Algebra.GroupWithZero.Nat

/-!
# Encoding and decoding

A valid instruction whose offsets fit is encoded in as many units as it takes up, and read back from
them, whatever comes behind (`Instruction.exists_encode`).  So code that consists of such
instructions is encoded, and decoded again (`Code.exists_encode`).
-/

namespace Dalvik

/-- Nothing is reported if a test holds. -/
@[simp] theorem Defect.unless_eq_none_iff {defect : Defect} {holds : Bool} :
    defect.unless holds = none ↔ holds = true := by
  unfold Defect.unless
  cases holds <;> simp

namespace Code

/-! ### Argument lists -/

theorem argument_lt {registers : List UInt8} (h : ∀ r ∈ registers, r < 16) (position : Nat) :
    argument registers position < 16 := by
  rw [argument, List.getD_eq_getElem?_getD]
  cases hr : registers[position]? with
  | none => decide
  | some r => exact h r (List.mem_of_getElem? hr)

/-- The high byte of a call, which holds the fifth register and the count. -/
def argumentHigh (registers : List UInt8) : UInt8 :=
  nibbles (argument registers 4) (UInt8.ofNat registers.length)

/-- The unit of a call that holds the first four registers. -/
def argumentPacked (registers : List UInt8) : UInt16 :=
  unitOf (nibbles (argument registers 0) (argument registers 1))
    (nibbles (argument registers 2) (argument registers 3))

theorem highNibble_argumentHigh {registers : List UInt8} (h : registers.length ≤ 5) :
    highNibble (argumentHigh registers) = UInt8.ofNat registers.length := by
  refine highNibble_nibbles ?_
  rw [UInt8.lt_iff_toNat_lt, UInt8.toNat_ofNat_of_lt' (Nat.lt_of_le_of_lt h (by decide))]
  exact Nat.lt_of_le_of_lt h (by decide)

theorem checkArgumentCount_argumentHigh (opcode : Opcode) {registers : List UInt8}
    (h : registers.length ≤ 5) : checkArgumentCount opcode (argumentHigh registers) = .ok () := by
  rw [checkArgumentCount, highNibble_argumentHigh h, if_pos]
  rw [UInt8.le_iff_toNat_le, UInt8.toNat_ofNat_of_lt' (Nat.lt_of_le_of_lt h (by decide))]
  exact h

/-- The registers of a call come back if there are no more than five, of four bits each. -/
theorem argumentsOf_argumentHigh {registers : List UInt8} (hlength : registers.length ≤ 5)
    (h : ∀ r ∈ registers, r < 16) :
    argumentsOf (argumentHigh registers) (argumentPacked registers) = registers := by
  have hcount : (UInt8.ofNat registers.length).toNat = registers.length :=
    UInt8.toNat_ofNat_of_lt' (Nat.lt_of_le_of_lt hlength (by decide))
  rw [argumentsOf, highNibble_argumentHigh hlength, hcount, argumentPacked, lowByte_unitOf,
    highByte_unitOf, lowNibble_nibbles (argument_lt h 0), highNibble_nibbles (argument_lt h 1),
    lowNibble_nibbles (argument_lt h 2), highNibble_nibbles (argument_lt h 3), argumentHigh,
    lowNibble_nibbles (argument_lt h 4)]
  rcases registers with _ | ⟨a, _ | ⟨b, _ | ⟨c, _ | ⟨d, _ | ⟨e, _ | ⟨f, rest⟩⟩⟩⟩⟩⟩
  · rfl
  · rfl
  · rfl
  · rfl
  · rfl
  · rfl
  · simp only [List.length_cons] at hlength
    omega

end Code

open Code

/-! ### Operands -/

namespace Operands

/-- Operands without a defect are encoded if their offset fits, and read back. -/
theorem exists_encode (o : Opcode) {args : Operands Int32} (hdefect : args.defect? = none)
    (hfits : ∀ t ∈ args.targets, args.reach.fits t.toInt = true) :
    ∃ high tail, args.encode o = .ok (headUnit o high :: tail) ∧ tail.length + 1 = args.units ∧
      ∀ rest, decode o high (tail ++ rest) args.format = .ok args := by
  cases args with
  | f10x => exact ⟨0, [], rfl, rfl, fun _ => rfl⟩
  | f11x a => exact ⟨a, [], rfl, rfl, fun _ => rfl⟩
  | f20bc error ref => exact ⟨error, [ref], rfl, rfl, fun _ => rfl⟩
  | f21c a ref => exact ⟨a, [ref], rfl, rfl, fun _ => rfl⟩
  | f21s a literal => exact ⟨a, [literal.toUInt16], rfl, rfl, fun _ => rfl⟩
  | f22x a b => exact ⟨a, [b], rfl, rfl, fun _ => rfl⟩
  | f32x a b => exact ⟨0, [a, b], rfl, rfl, fun _ => rfl⟩
  | f4rcc first count ref proto => exact ⟨count, [ref, first, proto], rfl, rfl, fun _ => rfl⟩
  | f3r kind first count index =>
    refine ⟨count, [index, first], rfl, rfl, fun rest => ?_⟩
    cases kind <;> rfl
  | f22b a b literal =>
    refine ⟨a, [unitOf b literal.toUInt8], rfl, rfl, fun rest => ?_⟩
    simp only [format, decode, List.cons_append, take1, lowByte_unitOf, highByte_unitOf,
      Int8.toInt8_toUInt8]
  | f23x a b c =>
    refine ⟨a, [unitOf b c], rfl, rfl, fun rest => ?_⟩
    simp only [format, decode, List.cons_append, take1, lowByte_unitOf, highByte_unitOf]
  | jump r t =>
    have hfits' : r.fits t.toInt = true := hfits t (List.mem_singleton_self t)
    cases r with
    | byte =>
      refine ⟨t.toInt8.toUInt8, [], ?_, rfl, fun rest => ?_⟩
      · rw [encode, offset8, if_pos hfits']
        rfl
      · simp only [format, Reach.format, decode, Int8.toInt8_toUInt8, toInt32_toInt8 hfits']
    | word =>
      refine ⟨0, [t.toInt16.toUInt16], ?_, rfl, fun rest => ?_⟩
      · rw [encode, offset16, if_pos hfits']
        rfl
      · simp only [format, Reach.format, decode, List.cons_append, take1, Int16.toInt16_toUInt16,
          toInt32_toInt16 hfits']
    | long =>
      refine ⟨0, wordUnits t.toUInt32, rfl, rfl, fun rest => ?_⟩
      simp only [format, Reach.format, decode, wordUnits, List.cons_append, take2,
        wordOf_wordUnits, Int32.toInt32_toUInt32]
  | f21t a t =>
    have hfits' : Reach.word.fits t.toInt = true := hfits t (List.mem_singleton_self t)
    refine ⟨a, [t.toInt16.toUInt16], ?_, rfl, fun rest => ?_⟩
    · rw [encode, offset16, if_pos hfits']
      rfl
    · simp only [format, decode, List.cons_append, take1, Int16.toInt16_toUInt16,
        toInt32_toInt16 hfits']
  | f22t a b t =>
    have hfits' : Reach.word.fits t.toInt = true := hfits t (List.mem_singleton_self t)
    obtain ⟨ha, hb⟩ : a < 16 ∧ b < 16 := by simpa [defect?] using hdefect
    refine ⟨nibbles a b, [t.toInt16.toUInt16], ?_, rfl, fun rest => ?_⟩
    · rw [encode, offset16, if_pos hfits']
      rfl
    · simp only [format, decode, List.cons_append, take1, lowNibble_nibbles ha,
        highNibble_nibbles hb, Int16.toInt16_toUInt16, toInt32_toInt16 hfits']
  | f11n a literal =>
    obtain ⟨ha, hlow, hhigh⟩ : a < 16 ∧ -8 ≤ literal ∧ literal ≤ 7 := by
      simpa [defect?] using hdefect
    refine ⟨nibbles a literal.toUInt8, [], rfl, rfl, fun rest => ?_⟩
    simp only [format, decode, lowNibble_nibbles ha, highNibbleSigned_nibbles a hlow hhigh]
  | f12x a b =>
    obtain ⟨ha, hb⟩ : a < 16 ∧ b < 16 := by simpa [defect?] using hdefect
    refine ⟨nibbles a b, [], rfl, rfl, fun rest => ?_⟩
    simp only [format, decode, lowNibble_nibbles ha, highNibble_nibbles hb]
  | f22c a b ref =>
    obtain ⟨ha, hb⟩ : a < 16 ∧ b < 16 := by simpa [defect?] using hdefect
    refine ⟨nibbles a b, [ref], rfl, rfl, fun rest => ?_⟩
    simp only [format, decode, List.cons_append, take1, lowNibble_nibbles ha, highNibble_nibbles hb]
  | f22cs a b offset =>
    obtain ⟨ha, hb⟩ : a < 16 ∧ b < 16 := by simpa [defect?] using hdefect
    refine ⟨nibbles a b, [offset], rfl, rfl, fun rest => ?_⟩
    simp only [format, decode, List.cons_append, take1, lowNibble_nibbles ha, highNibble_nibbles hb]
  | f22s a b literal =>
    obtain ⟨ha, hb⟩ : a < 16 ∧ b < 16 := by simpa [defect?] using hdefect
    refine ⟨nibbles a b, [literal.toUInt16], rfl, rfl, fun rest => ?_⟩
    simp only [format, decode, List.cons_append, take1, lowNibble_nibbles ha, highNibble_nibbles hb,
      Int16.toInt16_toUInt16]
  | f21ih a literal =>
    have hlow : literal.toInt % 65536 = 0 := by simpa [defect?] using hdefect
    refine ⟨a, [(literal.toUInt32 / 65536).toUInt16], rfl, rfl, fun rest => ?_⟩
    simp only [format, decode, List.cons_append, take1, highBits32 hlow]
  | f21lh a literal =>
    have hlow : literal.toInt % 281474976710656 = 0 := by simpa [defect?] using hdefect
    refine ⟨a, [(literal.toUInt64 / 281474976710656).toUInt16], rfl, rfl, fun rest => ?_⟩
    simp only [format, decode, List.cons_append, take1, highBits64 hlow]
  | f31c a ref =>
    refine ⟨a, wordUnits ref, rfl, rfl, fun rest => ?_⟩
    simp only [format, decode, wordUnits, List.cons_append, take2, wordOf_wordUnits]
  | f31i a literal =>
    refine ⟨a, wordUnits literal.toUInt32, rfl, rfl, fun rest => ?_⟩
    simp only [format, decode, wordUnits, List.cons_append, take2, wordOf_wordUnits,
      Int32.toInt32_toUInt32]
  | f31t a t =>
    refine ⟨a, wordUnits t.toUInt32, rfl, rfl, fun rest => ?_⟩
    simp only [format, decode, wordUnits, List.cons_append, take2, wordOf_wordUnits,
      Int32.toInt32_toUInt32]
  | f51l a literal =>
    refine ⟨a, longUnits literal.toUInt64, rfl, rfl, fun rest => ?_⟩
    simp only [format, decode, longUnits, wordUnits, List.cons_append, List.nil_append, take4,
      wordOf_wordUnits, longOf_words, Int64.toInt64_toUInt64]
  | f35 kind registers index =>
    obtain ⟨hlength, hregisters⟩ : registers.length ≤ 5 ∧ ∀ r ∈ registers, r < 16 := by
      simpa [defect?] using hdefect
    refine ⟨argumentHigh registers, [index, argumentPacked registers], rfl, rfl, fun rest => ?_⟩
    have hcheck := checkArgumentCount_argumentHigh o hlength
    have hregisters' := argumentsOf_argumentHigh hlength hregisters
    cases kind <;> simp only [format, IndexKind.listFormat, decode, hcheck, List.cons_append,
      take2, hregisters', bind, Except.bind]
  | f45cc registers ref proto =>
    obtain ⟨hlength, hregisters⟩ : registers.length ≤ 5 ∧ ∀ r ∈ registers, r < 16 := by
      simpa [defect?] using hdefect
    refine ⟨argumentHigh registers, [ref, argumentPacked registers, proto], rfl, rfl, fun rest => ?_⟩
    simp only [format, decode, checkArgumentCount_argumentHigh o hlength, List.cons_append, take3,
      argumentsOf_argumentHigh hlength hregisters, bind, Except.bind]

end Operands

/-! ### Payloads -/

namespace Code

theorem takeMany_append (units rest : List UInt16) :
    takeMany units.length (units ++ rest) = .ok units := by
  simp [takeMany]

theorem length_wordUnits (w : UInt32) : (wordUnits w).length = 2 := rfl

theorem length_flatMap_wordUnits (words : List Int32) :
    (words.flatMap fun w => wordUnits w.toUInt32).length = 2 * words.length := by
  simp [wordUnits, Nat.mul_comm]

/-- Words that are written one after the other are read again. -/
theorem wordsOfUnits_flatMap (words : List Int32) :
    wordsOfUnits (words.flatMap fun w => wordUnits w.toUInt32) = words := by
  have hgo : ∀ before, wordsOfUnits.go before (words.flatMap fun w => wordUnits w.toUInt32) =
      before.reverse ++ words := by
    induction words with
    | nil => simp [wordsOfUnits.go]
    | cons w rest ih =>
      intro before
      rw [List.flatMap_cons, wordUnits, List.cons_append, List.cons_append, List.nil_append,
        wordsOfUnits.go, ih, wordOf_wordUnits]
      simp
  exact hgo []

private theorem flatMap_wordsOfUnits_go (before : List Int32) : (units : List UInt16) →
    units.length % 2 = 0 →
    ((wordsOfUnits.go before units).flatMap fun w => wordUnits w.toUInt32) =
      (before.reverse.flatMap fun w => wordUnits w.toUInt32) ++ units
  | [], _ => by simp [wordsOfUnits.go]
  | [_], h => by simp at h
  | low :: high :: rest, h => by
    have hrest : rest.length % 2 = 0 := by
      simp only [List.length_cons] at h
      omega
    rw [wordsOfUnits.go, flatMap_wordsOfUnits_go ((wordOf low high).toInt32 :: before) rest hrest]
    simp [wordUnits_wordOf]

/-- An even number of units is read as words without loss. -/
theorem flatMap_wordsOfUnits {units : List UInt16} (h : units.length % 2 = 0) :
    ((wordsOfUnits units).flatMap fun w => wordUnits w.toUInt32) = units :=
  flatMap_wordsOfUnits_go [] units h

theorem length_wordsOfUnits {units : List UInt16} (h : units.length % 2 = 0) :
    2 * (wordsOfUnits units).length = units.length := by
  rw [← length_flatMap_wordUnits, flatMap_wordsOfUnits h]

private theorem unitsOfBytes_go (before : List UInt16) : (bytes : List UInt8) →
    unitsOfBytes.go before bytes = before.reverse ++ unitsOfBytes bytes
  | [] => by simp [unitsOfBytes, unitsOfBytes.go]
  | [_] => by simp [unitsOfBytes, unitsOfBytes.go]
  | low :: high :: rest => by
    have hcons : unitsOfBytes (low :: high :: rest) = unitsOfBytes.go [unitOf low high] rest := rfl
    rw [hcons, unitsOfBytes.go, unitsOfBytes_go (unitOf low high :: before) rest,
      unitsOfBytes_go [unitOf low high] rest]
    simp

/-- Two bytes are a unit. -/
theorem unitsOfBytes_cons_cons (low high : UInt8) (rest : List UInt8) :
    unitsOfBytes (low :: high :: rest) = unitOf low high :: unitsOfBytes rest :=
  unitsOfBytes_go [unitOf low high] rest

theorem bytesOfUnits_cons (u : UInt16) (units : List UInt16) :
    bytesOfUnits (u :: units) = lowByte u :: highByte u :: bytesOfUnits units := rfl

/-- Units that are stored as bytes are read again, whatever comes behind. -/
theorem unitsOfBytes_append (units : List UInt16) (bytes : List UInt8) :
    unitsOfBytes (bytesOfUnits units ++ bytes) = units ++ unitsOfBytes bytes := by
  induction units with
  | nil => rfl
  | cons u rest ih =>
    rw [bytesOfUnits_cons, List.cons_append, List.cons_append, unitsOfBytes_cons_cons, ih,
      unitOf_lowByte_highByte, List.cons_append]

theorem unitsOfBytes_bytesOfUnits (units : List UInt16) :
    unitsOfBytes (bytesOfUnits units) = units := by
  have happend := unitsOfBytes_append units []
  rw [List.append_nil] at happend
  rw [happend]
  exact List.append_nil units

theorem length_bytesOfUnits (units : List UInt16) :
    (bytesOfUnits units).length = 2 * units.length := by
  simp [bytesOfUnits, Nat.mul_comm]

/-- Bytes are stored in units without loss, except that one may be left over. -/
theorem exists_bytesOfUnits_append : (bytes : List UInt8) →
    ∃ odd, odd.length = bytes.length % 2 ∧ bytesOfUnits (unitsOfBytes bytes) ++ odd = bytes
  | [] => ⟨[], rfl, rfl⟩
  | [x] => ⟨[x], rfl, rfl⟩
  | low :: high :: rest => by
    obtain ⟨odd, hodd, hrest⟩ := exists_bytesOfUnits_append rest
    refine ⟨odd, by simp only [List.length_cons]; omega, ?_⟩
    rw [unitsOfBytes_cons_cons, bytesOfUnits_cons, lowByte_unitOf, highByte_unitOf,
      List.cons_append, List.cons_append, hrest]

/-- None is left over of an even number. -/
theorem bytesOfUnits_unitsOfBytes {bytes : List UInt8} (h : bytes.length % 2 = 0) :
    bytesOfUnits (unitsOfBytes bytes) = bytes := by
  obtain ⟨odd, hodd, hbytes⟩ := exists_bytesOfUnits_append bytes
  rw [h, List.length_eq_zero_iff] at hodd
  rwa [hodd, List.append_nil] at hbytes

/-- The units in which any bytes are stored, padded if their number is odd. -/
def paddedUnits (data : List UInt8) : List UInt16 :=
  unitsOfBytes (data ++ List.replicate (data.length % 2) 0)

theorem bytesOfUnits_paddedUnits (data : List UInt8) :
    bytesOfUnits (paddedUnits data) = data ++ List.replicate (data.length % 2) 0 := by
  refine bytesOfUnits_unitsOfBytes ?_
  rw [List.length_append, List.length_replicate]
  omega

theorem length_paddedUnits (data : List UInt8) :
    (paddedUnits data).length = (data.length + 1) / 2 := by
  have hlength := congrArg List.length (bytesOfUnits_paddedUnits data)
  rw [length_bytesOfUnits, List.length_append, List.length_replicate] at hlength
  omega

/-- The keys of some cases, and then their targets, are one sequence of words. -/
theorem flatMap_cases (cases : List (SwitchCase Int32)) :
    ((cases.flatMap fun c => wordUnits c.key.toUInt32) ++
      cases.flatMap fun c => wordUnits c.target.toUInt32) =
        (cases.map (·.key) ++ cases.map (·.target)).flatMap fun w => wordUnits w.toUInt32 := by
  rw [List.flatMap_append, List.flatMap_map, List.flatMap_map]

theorem length_flatMap_cases (cases : List (SwitchCase Int32)) :
    ((cases.map (·.key) ++ cases.map (·.target)).flatMap
      fun w => wordUnits w.toUInt32).length = 4 * cases.length := by
  rw [length_flatMap_wordUnits, List.length_append, List.length_map, List.length_map]
  omega

end Code

namespace Payload

theorem decodePacked_append {firstKey : Int32} {targets : List Int32}
    (hcount : targets.length ≤ 0xffff) (rest : List UInt16) :
    decodePacked ((UInt16.ofNat targets.length ::
        (wordUnits firstKey.toUInt32 ++ targets.flatMap fun t => wordUnits t.toUInt32)) ++ rest) =
      .ok (.packed firstKey targets) := by
  have hcount' : (UInt16.ofNat targets.length).toNat = targets.length :=
    UInt16.toNat_ofNat_of_lt' (Nat.lt_of_le_of_lt hcount (by decide))
  have htake := takeMany_append (targets.flatMap fun t => wordUnits t.toUInt32) rest
  rw [length_flatMap_wordUnits] at htake
  rw [wordUnits, List.cons_append, List.append_assoc, List.cons_append, List.cons_append,
    List.nil_append, decodePacked, hcount', htake]
  simp only [bind, Except.bind, pure, Except.pure, wordOf_wordUnits, Int32.toInt32_toUInt32,
    wordsOfUnits_flatMap]

theorem decodeSparse_append {cases : List (SwitchCase Int32)} (hcount : cases.length ≤ 0xffff)
    (rest : List UInt16) :
    decodeSparse ((UInt16.ofNat cases.length ::
        ((cases.flatMap fun c => wordUnits c.key.toUInt32) ++
          cases.flatMap fun c => wordUnits c.target.toUInt32)) ++ rest) =
      .ok (.sparse cases) := by
  have hcount' : (UInt16.ofNat cases.length).toNat = cases.length :=
    UInt16.toNat_ofNat_of_lt' (Nat.lt_of_le_of_lt hcount (by decide))
  have htake := takeMany_append
    ((cases.map (·.key) ++ cases.map (·.target)).flatMap fun w => wordUnits w.toUInt32) rest
  rw [length_flatMap_cases] at htake
  have hzip : (cases.map (·.key)).zipWith SwitchCase.mk (cases.map (·.target)) = cases := by
    rw [List.zipWith_map]
    simp
  rw [flatMap_cases, List.cons_append, decodeSparse, hcount', htake]
  simp only [bind, Except.bind, pure, Except.pure, wordsOfUnits_flatMap]
  rw [List.take_left' (List.length_map _), List.drop_left' (List.length_map _), hzip]

/-- Array data comes back if it is made of elements, no more of them than their count can say.  There
may be none, of any width. -/
theorem decodeArray_append {width : UInt16} {data : List UInt8}
    (hwhole : width.toNat * (data.length / max width.toNat 1) = data.length)
    (hcount : data.length / max width.toNat 1 ≤ 0xffffffff) (rest : List UInt16) :
    decodeArray ((width :: (wordUnits (UInt32.ofNat (data.length / max width.toNat 1)) ++
        paddedUnits data)) ++ rest) =
      .ok (.array width data) := by
  have hcount' : (UInt32.ofNat (data.length / max width.toNat 1)).toNat =
      data.length / max width.toNat 1 :=
    UInt32.toNat_ofNat_of_lt' (Nat.lt_of_le_of_lt hcount (by decide))
  have htake := takeMany_append (paddedUnits data) rest
  rw [length_paddedUnits] at htake
  rw [wordUnits, List.cons_append, List.append_assoc, List.cons_append, List.cons_append,
    List.nil_append, decodeArray]
  simp only [wordOf_wordUnits, hcount', hwhole, htake, bind, Except.bind, pure, Except.pure,
    bytesOfUnits_paddedUnits, List.take_left]

/-- A payload without a defect is read back from what follows its marker. -/
theorem exists_encode {p : Payload Int32} (hdefect : p.defect? = none) (high : UInt8) :
    ∃ tail, p.encode = p.opcode.value :: tail ∧ tail.length + 1 = p.units ∧
      ∀ rest, Instruction.decodeRest p.opcode high (tail ++ rest) = .ok (.data p) := by
  cases p with
  | packed firstKey targets =>
    have hcount : targets.length ≤ 0xffff := by simpa [defect?] using hdefect
    refine ⟨_, rfl, ?_, fun rest => bind_eq_ok_iff.2 ⟨_, decodePacked_append hcount rest, rfl⟩⟩
    simp only [units, List.length_cons, List.length_append, length_flatMap_wordUnits,
      length_wordUnits]
    omega
  | sparse cases =>
    obtain ⟨hcount, -⟩ : cases.length ≤ 0xffff ∧
        strictlyIncreasing (cases.map (·.key)) = true := by simpa [defect?] using hdefect
    refine ⟨_, rfl, ?_, fun rest => bind_eq_ok_iff.2 ⟨_, decodeSparse_append hcount rest, rfl⟩⟩
    rw [List.length_cons, flatMap_cases, length_flatMap_cases, units]
    omega
  | array width data =>
    obtain ⟨hwidth, hwhole, hcount⟩ : [1, 2, 4, 8].contains width = true ∧
        data.length % width.toNat = 0 ∧ data.length / width.toNat ≤ 0xffffffff := by
      simpa [defect?] using hdefect
    have hpos : 0 < width.toNat := by
      simp only [List.contains_eq_mem, List.mem_cons, List.not_mem_nil, or_false,
        decide_eq_true_eq] at hwidth
      rcases hwidth with rfl | rfl | rfl | rfl <;> decide
    have hmax : max width.toNat 1 = width.toNat := Nat.max_eq_left hpos
    have hsize : width.toNat * (data.length / max width.toNat 1) = data.length := by
      rw [hmax, Nat.mul_div_cancel' (Nat.dvd_of_mod_eq_zero hwhole)]
    have hcount' : data.length / max width.toNat 1 ≤ 0xffffffff := by
      rw [hmax]
      exact hcount
    refine ⟨_, rfl, ?_, fun rest =>
      bind_eq_ok_iff.2 ⟨_, decodeArray_append hsize hcount' rest, rfl⟩⟩
    have hlength := length_paddedUnits data
    simp only [units, List.length_cons, List.length_append, length_wordUnits]
    rw [paddedUnits] at hlength
    omega

end Payload

/-! ### Instructions -/

namespace Instruction

theorem decodeRest_of_isPayload_eq_false {o : Opcode} (h : o.format.isPayload = false)
    (high : UInt8) (rest : List UInt16) :
    decodeRest o high rest = do return .op o (← Operands.decode o high rest o.format) := by
  unfold decodeRest
  split
  · next hformat => rw [hformat] at h; cases h
  · next hformat => rw [hformat] at h; cases h
  · next hformat => rw [hformat] at h; cases h
  · rfl

/-- A valid instruction is encoded if its offset fits, and read back whatever comes behind. -/
theorem exists_encode {i : Instruction Int32} (hvalid : i.Valid) (hfits : i.overlong? = none) :
    ∃ units, i.encode = .ok units ∧ units.length = i.units ∧
      ∀ rest, decode (units ++ rest) = .ok i := by
  cases i with
  | op o args =>
    have hformat := format_of_valid hvalid
    have hno : o.format.isPayload = false := by
      rw [hformat]
      exact isPayload_format (.op o args)
    obtain ⟨high, tail, hencode, hlength, hdecode⟩ :=
      Operands.exists_encode o (defect?_of_valid hvalid) fun t ht => by
        simpa using List.find?_eq_none.1 hfits t ht
    have hnop : o = .nop → high = 0 := by
      rintro rfl
      obtain rfl := Operands.eq_f10x_of_format hformat.symm
      have hhead : headUnit .nop 0 = headUnit .nop high :=
        (List.cons.inj (Except.ok.inj hencode)).1
      rw [← highByte_headUnit hno high, ← hhead, highByte_headUnit hno]
    refine ⟨headUnit o high :: tail, hencode, hlength, fun rest => ?_⟩
    rw [List.cons_append, decode, opcode?_headUnit hno hnop, highByte_headUnit hno]
    dsimp only
    rw [decodeRest_of_isPayload_eq_false hno, hformat]
    exact bind_eq_ok_iff.2 ⟨args, hdecode rest, rfl⟩
  | data p =>
    have hmarker : p.opcode.format.isPayload = true := by cases p <;> rfl
    obtain ⟨tail, hencode, hlength, hdecode⟩ :=
      Payload.exists_encode (p := p) hvalid (highByte p.opcode.value)
    refine ⟨p.opcode.value :: tail, congrArg _ hencode, hlength, fun rest => ?_⟩
    rw [List.cons_append, decode, opcode?_value hmarker]
    exact hdecode rest

end Instruction

/-! ### Code -/

namespace Code

/-- Units that still belong to an instruction are passed over. -/
theorem decodeUnits_go_skip (before : List (Instruction Int32)) (address : Nat)
    (units rest : List UInt16) :
    decodeUnits.go before address units.length (units ++ rest) =
      decodeUnits.go before (address + units.length) 0 rest := by
  induction units generalizing address with
  | nil => rfl
  | cons u units ih =>
    rw [List.length_cons, List.cons_append, decodeUnits.go, ih, Nat.add_assoc, Nat.add_comm 1]

/-- The units of an instruction are read in one step. -/
theorem decodeUnits_go_append {i : Instruction Int32} {units : List UInt16}
    {rest : List UInt16} (hlength : units.length = i.units)
    (hdecode : Instruction.decode (units ++ rest) = .ok i) (before : List (Instruction Int32))
    (address : Nat) :
    decodeUnits.go before address 0 (units ++ rest) =
      decodeUnits.go (i :: before) (address + i.units) 0 rest := by
  cases units with
  | nil => exact absurd hlength (Nat.ne_of_lt i.units_pos)
  | cons first tail =>
    rw [List.length_cons] at hlength
    rw [List.cons_append] at hdecode ⊢
    have htail : i.units - 1 = tail.length := by omega
    rw [decodeUnits.go, hdecode]
    dsimp only
    rw [htail, decodeUnits_go_skip, ← hlength, Nat.add_assoc, Nat.add_comm 1]

/-- Code is encoded and read back, instruction by instruction. -/
theorem exists_encodeUnits {code : List (Instruction Int32)} (hvalid : ∀ i ∈ code, i.Valid)
    (hfits : ∀ i ∈ code, i.overlong? = none) :
    ∃ pieces, code.mapM Instruction.encode = .ok pieces ∧
      pieces.flatten.length = (code.map Instruction.units).sum ∧
      ∀ before address, decodeUnits.go before address 0 pieces.flatten =
        .ok (before.reverse ++ code) := by
  induction code with
  | nil => exact ⟨[], rfl, rfl, fun before address => by simp [decodeUnits.go]⟩
  | cons i rest ih =>
    rw [List.forall_mem_cons] at hvalid hfits
    obtain ⟨pieces, hpieces, hlengths, hrest⟩ := ih hvalid.2 hfits.2
    obtain ⟨units, hunits, hlength, hdecode⟩ := Instruction.exists_encode hvalid.1 hfits.1
    refine ⟨units :: pieces, ?_, ?_, fun before address => ?_⟩
    · exact mapM_eq_ok_iff.2 (.cons hunits (mapM_eq_ok_iff.1 hpieces))
    · rw [List.flatten_cons, List.length_append, hlength, hlengths, List.map_cons, List.sum_cons]
    · rw [List.flatten_cons, decodeUnits_go_append hlength (hdecode _), hrest, List.reverse_cons,
        List.append_assoc]
      rfl

/-- Code that consists of valid instructions with offsets that fit is encoded, two bytes for every
unit, and decoded again. -/
theorem exists_encode {code : List (Instruction Int32)} (hvalid : ∀ i ∈ code, i.Valid)
    (hfits : ∀ i ∈ code, i.overlong? = none) :
    ∃ bytes, encode code = .ok bytes ∧ bytes.length = 2 * (code.map Instruction.units).sum ∧
      decode bytes = .ok code := by
  obtain ⟨pieces, hpieces, hlengths, hdecode⟩ := exists_encodeUnits hvalid hfits
  have hlength : (bytesOfUnits pieces.flatten).length = 2 * (code.map Instruction.units).sum := by
    rw [length_bytesOfUnits, hlengths]
  refine ⟨bytesOfUnits pieces.flatten, bind_eq_ok_iff.2 ⟨pieces, hpieces, rfl⟩, hlength, ?_⟩
  refine bind_eq_ok_iff.2 ⟨code, ?_, ?_⟩
  · rw [unitsOfBytes_bytesOfUnits]
    exact hdecode [] 0
  · rw [if_pos (by rw [hlength]; omega)]

end Code

end Dalvik
