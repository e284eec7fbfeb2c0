import Dalvik.Proofs.Code.Codec

/-!
# Code as bytes

Whatever is encoded takes up two bytes for every unit of its size, whether it is valid or not: a
field that is too narrow for a value loses bits of it, but never grows
(`Code.length_of_encode_eq_ok`).  If nothing is lost, which is so for valid instructions with offsets
that fit, decoding gives the instructions back (`Code.decode_encode`).
-/

namespace Dalvik

open Code

/-! ### Sizes -/

/-- The units of an instruction are as many as its operands take up. -/
theorem Operands.length_of_encode_eq_ok {o : Opcode} {args : Operands Int32} {units : List UInt16}
    (h : args.encode o = .ok units) : units.length = args.units := by
  cases args with
  | jump r t =>
    cases r with
    | byte =>
      obtain ⟨offset, -, hunits⟩ := bind_eq_ok_iff.1 h
      rw [← pure_eq_ok_iff.1 hunits]
      rfl
    | word =>
      obtain ⟨offset, -, hunits⟩ := bind_eq_ok_iff.1 h
      rw [← pure_eq_ok_iff.1 hunits]
      rfl
    | long =>
      rw [← Except.ok.inj h]
      rfl
  | f21t a t =>
    obtain ⟨offset, -, hunits⟩ := bind_eq_ok_iff.1 h
    rw [← pure_eq_ok_iff.1 hunits]
    rfl
  | f22t a b t =>
    obtain ⟨offset, -, hunits⟩ := bind_eq_ok_iff.1 h
    rw [← pure_eq_ok_iff.1 hunits]
    rfl
  | _ =>
    rw [← Except.ok.inj h]
    rfl

/-- The units of a payload are as many as it takes up, however long it is. -/
theorem Payload.length_encode (p : Payload Int32) : p.encode.length = p.units := by
  cases p with
  | packed firstKey targets =>
    rw [encode, List.length_cons, List.length_cons, List.length_append, length_wordUnits,
      length_flatMap_wordUnits, units]
    omega
  | sparse cases =>
    rw [encode, flatMap_cases, List.length_cons, List.length_cons, length_flatMap_cases, units]
    omega
  | array width data =>
    have hdata := length_paddedUnits data
    rw [paddedUnits] at hdata
    rw [encode, List.length_cons, List.length_cons, List.length_append, length_wordUnits, hdata,
      units]
    omega

theorem Instruction.length_of_encode_eq_ok {i : Instruction Int32} {units : List UInt16}
    (h : i.encode = .ok units) : units.length = i.units := by
  cases i with
  | op o args => exact Operands.length_of_encode_eq_ok h
  | data p =>
    rw [← Except.ok.inj h]
    exact p.length_encode

namespace Code

/-- Whatever is encoded takes up two bytes for every unit of its size. -/
theorem length_of_encode_eq_ok {code : List (Instruction Int32)} {bytes : List UInt8}
    (h : encode code = .ok bytes) : bytes.length = 2 * (code.map Instruction.units).sum := by
  obtain ⟨pieces, hpieces, hbytes⟩ := bind_eq_ok_iff.1 h
  rw [← pure_eq_ok_iff.1 hbytes, length_bytesOfUnits]
  congr 1
  have hall := mapM_eq_ok_iff.1 hpieces
  clear h hpieces hbytes
  induction hall with
  | nil => rfl
  | cons hunits _ ih =>
    rw [List.flatten_cons, List.length_append, ih, Instruction.length_of_encode_eq_ok hunits,
      List.map_cons, List.sum_cons]

end Code

/-! ### Offsets -/

/-- An offset fits if it is in the range of the format of its branch. -/
theorem Instruction.overlong?_eq_none {i : Instruction Int32}
    (hbyte : i.format = .f10t → ∀ t ∈ i.targets, -128 ≤ t.toInt ∧ t.toInt ≤ 127)
    (hword : i.format = .f20t ∨ i.format = .f21t ∨ i.format = .f22t →
      ∀ t ∈ i.targets, -32768 ≤ t.toInt ∧ t.toInt ≤ 32767) : i.overlong? = none := by
  cases i with
  | data p => rfl
  | op o args =>
    rw [overlong?, List.find?_eq_none]
    intro t ht
    cases args with
    | jump r target =>
      cases r with
      | byte => simpa [Operands.reach, Reach.fits] using hbyte rfl t ht
      | word => simpa [Operands.reach, Reach.fits] using hword (.inl rfl) t ht
      | long => simp [Operands.reach, Reach.fits]
    | f21t a target => simpa [Operands.reach, Reach.fits] using hword (.inr (.inl rfl)) t ht
    | f22t a b target => simpa [Operands.reach, Reach.fits] using hword (.inr (.inr rfl)) t ht
    | f31t a target => simp [Operands.reach, Reach.fits]
    | _ => exact absurd ht List.not_mem_nil

namespace Code

/-- Code that consists of valid instructions, with offsets in the ranges of their formats, is encoded
and read back unchanged.  Any code that is encoded, valid or not, takes up two bytes for every unit
of its size. -/
theorem decode_encode :
    (∀ code : List (Instruction Int32), (∀ i ∈ code, i.Valid) →
      (∀ i ∈ code, i.format = .f10t → ∀ t ∈ i.targets, -128 ≤ t.toInt ∧ t.toInt ≤ 127) →
      (∀ i ∈ code, i.format = .f20t ∨ i.format = .f21t ∨ i.format = .f22t →
        ∀ t ∈ i.targets, -32768 ≤ t.toInt ∧ t.toInt ≤ 32767) →
      ∃ bytes, encode code = .ok bytes ∧ decode bytes = .ok code) ∧
    ∀ (code : List (Instruction Int32)) (bytes : List UInt8), encode code = .ok bytes →
      bytes.length = 2 * (code.map Instruction.units).sum := by
  refine ⟨fun code hvalid hbyte hword => ?_, fun code bytes => length_of_encode_eq_ok⟩
  obtain ⟨bytes, hencode, -, hdecode⟩ := exists_encode hvalid fun i hi =>
    Instruction.overlong?_eq_none (hbyte i hi) (hword i hi)
  exact ⟨bytes, hencode, hdecode⟩

/-- A jump and branches at the ends of their ranges, a call, and payloads of all kinds, one of them
with a byte of padding. -/
def mixed : List (Instruction Int32) :=
  [.goto .byte (-128), .goto .word 32767, .op .ifEqz (.f21t 200 (-32768)), .nop,
    .op .invokeVirtual (.f35 .pool [1, 2, 3, 4, 15] 7), .op .const4 (.f11n 3 (-8)),
    .data (.packed (-5) [4, -9]), .data (.sparse [⟨-1, 3⟩, ⟨6, 2⟩]), .data (.array 1 [1, 2, 3])]

/-- The mixed code is valid, its offsets are in range, and so its 34 units are written and read. -/
theorem decode_encode_mixed :
    (∀ i ∈ mixed, i.Valid) ∧
      ∃ bytes, encode mixed = .ok bytes ∧ decode bytes = .ok mixed ∧ bytes.length = 68 := by
  have hvalid : ∀ i ∈ mixed, i.Valid := by decide +kernel
  have htargets : ∃ bytes, encode mixed = .ok bytes ∧ decode bytes = .ok mixed := by
    refine decode_encode.1 mixed hvalid ?_ ?_ <;>
      simp [mixed, Instruction.goto, Instruction.nop, Instruction.format, Operands.format,
        Reach.format, IndexKind.listFormat, Payload.format, Instruction.targets, Operands.targets]
  obtain ⟨bytes, hencode, hdecode⟩ := htargets
  refine ⟨hvalid, bytes, hencode, hdecode, ?_⟩
  rw [decode_encode.2 mixed bytes hencode]
  decide +kernel

end Code

end Dalvik
