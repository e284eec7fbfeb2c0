import Dalvik.Proofs.Code.Codec

/-!
# Fields that are not read

Some fields of an instruction stand for nothing: decoding skips them, and encoding fills them with
zeros.  `Instruction.ignored` marks their bits, byte by byte.

In a call it depends on the number of its registers which fields these are.  What is left of the
units of a call when its registers are read out and packed again is worked out here once for the
formats that list registers.
-/

namespace Dalvik

namespace Code

/-! ### Masks -/

/-- Bytes without the bits of a mask. -/
def clear (bytes masks : List UInt8) : List UInt8 :=
  List.zipWith (fun x mask => x &&& ~~~mask) bytes masks

theorem clear_append {bytes bytes' masks masks' : List UInt8} (h : bytes.length = masks.length) :
    clear (bytes ++ bytes') (masks ++ masks') = clear bytes masks ++ clear bytes' masks' :=
  List.zipWith_append h

@[simp] theorem clear_cons (x mask : UInt8) (bytes masks : List UInt8) :
    clear (x :: bytes) (mask :: masks) = (x &&& ~~~mask) :: clear bytes masks := rfl

theorem clear_replicate_zero (bytes : List UInt8) :
    clear bytes (List.replicate bytes.length 0) = bytes := by
  induction bytes with
  | nil => rfl
  | cons x rest ih =>
    rw [List.length_cons, List.replicate_succ, clear_cons, ih]
    simp

theorem clear_replicate_ones (bytes : List UInt8) :
    clear bytes (List.replicate bytes.length 0xff) = List.replicate bytes.length 0 := by
  induction bytes with
  | nil => rfl
  | cons x rest ih =>
    have hx : x &&& ~~~0xff = 0 := UInt8.and_zero
    rw [List.length_cons, List.replicate_succ, List.replicate_succ, clear_cons, ih, hx]

theorem and_not_eq_self_iff {x mask : UInt8} : x &&& ~~~mask = x ↔ x &&& mask = 0 := by
  rw [← UInt8.toBitVec_inj, ← UInt8.toBitVec_inj]
  simp only [UInt8.toBitVec_and, UInt8.toBitVec_not]
  constructor
  · intro h
    rw [← h]
    ext k hk
    simp
  · intro h
    ext k hk
    have hbit := congrArg (·[k]) h
    simp only [BitVec.getElem_and, UInt8.toBitVec_zero, BitVec.getElem_zero] at hbit
    simpa using hbit

/-- Nothing is lost if the bits of the mask are zero already. -/
theorem clear_eq_self_iff {bytes masks : List UInt8} (h : bytes.length = masks.length) :
    clear bytes masks = bytes ↔ ∀ x ∈ List.zipWith (· &&& ·) bytes masks, x = 0 := by
  induction bytes generalizing masks with
  | nil => simp [clear]
  | cons x rest ih =>
    cases masks with
    | nil => simp at h
    | cons mask masks =>
      have hrest := ih (Nat.succ.inj h)
      rw [clear_cons, List.zipWith_cons_cons, List.cons.injEq, List.forall_mem_cons,
        and_not_eq_self_iff]
      exact and_congr_right fun _ => hrest

theorem bytesOfUnits_append (units units' : List UInt16) :
    bytesOfUnits (units ++ units') = bytesOfUnits units ++ bytesOfUnits units' :=
  List.flatMap_append

/-- Units keep their bytes where nothing is ignored. -/
theorem clear_bytesOfUnits (units : List UInt16) :
    clear (bytesOfUnits units) (List.replicate (2 * units.length) 0) = bytesOfUnits units := by
  rw [← length_bytesOfUnits, clear_replicate_zero]

/-- Of the two registers in a byte, those at `position` and behind it, the bits of the ones past the
end of a list of `count` registers. -/
def spareNibbles (count position : Nat) : UInt8 :=
  (if count ≤ position then 0x0f else 0) ||| (if count ≤ position + 1 then 0xf0 else 0)

end Code

open Code

/-! ### Ignored bits -/

namespace Operands

variable {τ : Type}

/-- The ignored bits in the high byte of the first unit: all of them in the formats `10x`, `20t`,
`30t` and `32x`, except in `nop`, which only a zero byte tells from the payloads, and in a call the
fifth register if there are less. -/
def ignoredHigh (opcode : Opcode) : Operands τ → UInt8
  | f10x => if opcode = .nop then 0 else 0xff
  | jump .word _ | jump .long _ | f32x .. => 0xff
  | f35 _ registers _ | f45cc registers _ _ => if registers.length ≤ 4 then 0x0f else 0
  | _ => 0

/-- The ignored bits in the bytes behind the first unit: in a call, those of the first four registers
that are not there. -/
def ignoredTail : Operands τ → List UInt8
  | f35 _ registers _ =>
    [0, 0, spareNibbles registers.length 0, spareNibbles registers.length 2]
  | f45cc registers _ _ =>
    [0, 0, spareNibbles registers.length 0, spareNibbles registers.length 2, 0, 0]
  | args => List.replicate (2 * (args.units - 1)) 0

end Operands

/-- The ignored bits of a payload: in an array whose elements have no width, their number, and the
byte that pads odd data. -/
def Payload.ignored {τ : Type} : Payload τ → List UInt8
  | .array width data =>
    [0, 0, 0, 0] ++ List.replicate 4 (if width = 0 then 0xff else 0) ++
      List.replicate data.length 0 ++ List.replicate (data.length % 2) 0xff
  | p => List.replicate (2 * p.units) 0

/-- The ignored bits of an instruction, as masks of its bytes. -/
def Instruction.ignored {τ : Type} : Instruction τ → List UInt8
  | op opcode args => 0 :: args.ignoredHigh opcode :: args.ignoredTail
  | data payload => payload.ignored

theorem Operands.length_ignoredTail {τ : Type} (args : Operands τ) :
    args.ignoredTail.length = 2 * (args.units - 1) := by
  cases args <;> first | rfl | exact List.length_replicate

/-- There is a mask for every byte. -/
theorem Instruction.length_ignored {τ : Type} (i : Instruction τ) :
    i.ignored.length = 2 * i.units := by
  have hpos := i.units_pos
  cases i with
  | op o args =>
    have hunits : 0 < args.units := hpos
    rw [ignored, List.length_cons, List.length_cons, args.length_ignoredTail, units]
    omega
  | data p =>
    cases p with
    | array width data =>
      simp only [ignored, Payload.ignored, List.length_append, List.length_cons, List.length_nil,
        List.length_replicate, units, Payload.units]
      omega
    | _ => exact List.length_replicate

/-! ### Argument lists -/

namespace Code

variable {high : UInt8} {packed : UInt16}

/-- A call has as many registers as its count says. -/
theorem length_argumentsOf (h : highNibble high ≤ 5) :
    (argumentsOf high packed).length = (highNibble high).toNat := by
  have hle : (highNibble high).toNat ≤ 5 := UInt8.le_iff_toNat_le.1 h
  rw [argumentsOf, List.length_take]
  exact Nat.min_eq_left hle

theorem length_argumentsOf_le : (argumentsOf high packed).length ≤ 5 := by
  rw [argumentsOf, List.length_take]
  exact Nat.min_le_right _ _

theorem argumentsOf_lt : ∀ r ∈ argumentsOf high packed, r < 16 := by
  intro r hr
  have hmem := List.mem_of_mem_take hr
  simp only [List.mem_cons, List.not_mem_nil, or_false] at hmem
  rcases hmem with rfl | rfl | rfl | rfl | rfl
  · exact lowNibble_lt _
  · exact highNibble_lt _
  · exact lowNibble_lt _
  · exact highNibble_lt _
  · exact lowNibble_lt _

/-- The registers of a call that was read are read again. -/
theorem argumentsOf_argumentsOf :
    argumentsOf (argumentHigh (argumentsOf high packed)) (argumentPacked (argumentsOf high packed)) =
      argumentsOf high packed :=
  argumentsOf_argumentHigh length_argumentsOf_le argumentsOf_lt

theorem checkArgumentCount_argumentsOf (o : Opcode) :
    checkArgumentCount o (argumentHigh (argumentsOf high packed)) = .ok () :=
  checkArgumentCount_argumentHigh o length_argumentsOf_le

theorem argument_take (registers : List UInt8) (count position : Nat) :
    argument (registers.take count) position =
      if position < count then argument registers position else 0 := by
  rw [argument, argument, List.getD_eq_getElem?_getD, List.getD_eq_getElem?_getD,
    List.getElem?_take]
  split <;> rfl

theorem nibbles_eq_clear (x : UInt8) (count position : Nat) :
    nibbles (if position < count then lowNibble x else 0)
        (if position + 1 < count then highNibble x else 0) =
      x &&& ~~~spareNibbles count position := by
  unfold spareNibbles
  rcases Nat.lt_or_ge position count with hlow | hlow
  · rw [if_pos hlow, if_neg (Nat.not_le.2 hlow)]
    rcases Nat.lt_or_ge (position + 1) count with hhigh | hhigh
    · rw [if_pos hhigh, if_neg (Nat.not_le.2 hhigh), nibbles_lowNibble_highNibble]
      simp
    · rw [if_neg (Nat.not_lt.2 hhigh), if_pos hhigh, nibbles_lowNibble_zero]
      rfl
  · have hhigh : count ≤ position + 1 := Nat.le_succ_of_le hlow
    have hzero : x &&& ~~~(0x0f ||| 0xf0) = 0 := UInt8.and_zero
    rw [if_neg (Nat.not_lt.2 hlow), if_pos hlow, if_neg (Nat.not_lt.2 hhigh), if_pos hhigh, hzero]
    rfl

/-- The high byte of a call that was read comes back without a fifth register that is not there. -/
theorem argumentHigh_argumentsOf (h : highNibble high ≤ 5) :
    argumentHigh (argumentsOf high packed) =
      high &&& ~~~(if (argumentsOf high packed).length ≤ 4 then 0x0f else 0) := by
  have hlength : (argumentsOf high packed).length = (highNibble high).toNat := length_argumentsOf h
  have hfifth : argument (argumentsOf high packed) 4 =
      if 4 < (argumentsOf high packed).length then lowNibble high else 0 := by
    rw [hlength, argumentsOf, argument_take]
    rfl
  rw [argumentHigh, hfifth, hlength, UInt8.ofNat_toNat]
  rcases Nat.lt_or_ge 4 (highNibble high).toNat with hcount | hcount
  · rw [if_pos hcount, if_neg (Nat.not_le.2 hcount), nibbles_lowNibble_highNibble]
    simp
  · rw [if_neg (Nat.not_lt.2 hcount), if_pos hcount, nibbles_zero_highNibble]
    rfl

/-- The unit with the first four registers comes back without those that are not there. -/
theorem argumentPacked_argumentsOf (packed : UInt16) (h : highNibble high ≤ 5) :
    lowByte (argumentPacked (argumentsOf high packed)) =
        lowByte packed &&& ~~~spareNibbles (argumentsOf high packed).length 0 ∧
      highByte (argumentPacked (argumentsOf high packed)) =
        highByte packed &&& ~~~spareNibbles (argumentsOf high packed).length 2 := by
  rw [length_argumentsOf h, argumentPacked, lowByte_unitOf, highByte_unitOf, argumentsOf,
    ← nibbles_eq_clear, ← nibbles_eq_clear]
  simp only [argument_take]
  exact ⟨rfl, rfl⟩

/-- So do the units behind the first one. -/
theorem bytesOfUnits_arguments (h : highNibble high ≤ 5) (index : UInt16) (behind : List UInt16) :
    bytesOfUnits (index :: argumentPacked (argumentsOf high packed) :: behind) =
      clear (bytesOfUnits (index :: packed :: behind))
        ([0, 0, spareNibbles (argumentsOf high packed).length 0,
          spareNibbles (argumentsOf high packed).length 2] ++
            List.replicate (2 * behind.length) 0) := by
  obtain ⟨hlow, hhigh⟩ := argumentPacked_argumentsOf packed h
  have hkept : ∀ x : UInt8, x &&& ~~~0 = x := fun x => UInt8.and_neg_one
  simp only [bytesOfUnits_cons, List.cons_append, List.nil_append, clear_cons, hkept, hlow, hhigh]
  rw [clear_bytesOfUnits]

end Code

end Dalvik
