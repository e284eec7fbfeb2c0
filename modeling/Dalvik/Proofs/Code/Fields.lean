import Dalvik.Code.Decode
import Dalvik.Code.Encode
import Mathlib.Data.List.Chain

/-!
# Fields of code units

What is packed into code units is got back from them: the opcode and whatever shares its unit,
offsets and literals of various widths, words and long words.  Values in a field that is narrower
than they are come back if they fit.

Conversely, units are made again from what was read out of them, so that reading loses nothing but
the fields that no operand is read from.
-/

namespace Dalvik

/-! ### Opcodes by value -/

namespace Opcode

/-- The table of all opcodes holds every opcode. -/
theorem getElem?_all (o : Opcode) : all[o.ctorIdx]? = some o := by
  cases o <;> rfl

set_option maxRecDepth 4000 in
/-- Values increase from one opcode to the next. -/
theorem isChain_all : all.IsChain fun o o' => o.value.toNat < o'.value.toNat := by
  decide

/-- No two opcodes have the same value. -/
theorem value_injective {o o' : Opcode} (h : o.value = o'.value) : o = o' := by
  have hpairs : all.Pairwise fun o o' => o.value.toNat < o'.value.toNat :=
    List.pairwise_map.1 ((List.isChain_map _).2 isChain_all).pairwise
  have hpairs := List.pairwise_iff_getElem.1 hpairs
  obtain ⟨hk, ho⟩ := List.getElem?_eq_some_iff.1 (getElem?_all o)
  obtain ⟨hk', ho'⟩ := List.getElem?_eq_some_iff.1 (getElem?_all o')
  rcases Nat.lt_trichotomy o.ctorIdx o'.ctorIdx with hlt | heq | hgt
  · have hvalue := hpairs _ _ hk hk' hlt
    rw [ho, ho', h] at hvalue
    exact absurd hvalue (Nat.lt_irrefl _)
  · rw [← ho, ← ho']
    simp only [heq]
  · have hvalue := hpairs _ _ hk' hk hgt
    rw [ho, ho', h] at hvalue
    exact absurd hvalue (Nat.lt_irrefl _)

/-- An opcode is found by its value. -/
theorem ofValue?_value (o : Opcode) : ofValue? o.value = some o := by
  obtain ⟨o', ho'⟩ : ∃ o', all.find? (·.value == o.value) = some o' := by
    rw [← Option.isSome_iff_exists, List.find?_isSome]
    exact ⟨o, List.mem_of_getElem? (getElem?_all o), by simp⟩
  have hvalue : o'.value = o.value := by simpa using List.find?_some ho'
  rw [ofValue?, ho', value_injective hvalue]

/-- Only an opcode with that value is found. -/
theorem value_of_ofValue? {value : UInt16} {o : Opcode} (h : ofValue? value = some o) :
    o.value = value := by
  simpa using List.find?_some h

set_option maxRecDepth 4000 in
/-- The value of an instruction is a byte, and only that of `nop` is zero. -/
theorem value_of_mem_all : ∀ o ∈ all, o.format.isPayload = false →
    Code.highByte o.value = 0 ∧ (Code.lowByte o.value = 0 → o = .nop) := by
  decide

theorem highByte_value {o : Opcode} (h : o.format.isPayload = false) :
    Code.highByte o.value = 0 :=
  (value_of_mem_all o (List.mem_of_getElem? (getElem?_all o)) h).1

theorem eq_nop_of_lowByte_value {o : Opcode} (h : o.format.isPayload = false)
    (hzero : Code.lowByte o.value = 0) : o = .nop :=
  (value_of_mem_all o (List.mem_of_getElem? (getElem?_all o)) h).2 hzero

set_option maxRecDepth 4000 in
/-- The marker of a payload has a zero low byte, like `nop`. -/
theorem lowByte_value {o : Opcode} (h : o.format.isPayload = true) :
    Code.lowByte o.value = 0 := by
  have hall : ∀ o ∈ all, o.format.isPayload = true → Code.lowByte o.value = 0 := by
    decide
  exact hall o (List.mem_of_getElem? (getElem?_all o)) h

end Opcode

namespace Code

/-! ### The first unit -/

variable {o : Opcode}

theorem lowByte_headUnit (o : Opcode) (high : UInt8) :
    lowByte (headUnit o high) = lowByte o.value := lowByte_unitOf _ _

theorem highByte_headUnit (h : o.format.isPayload = false) (high : UInt8) :
    highByte (headUnit o high) = high := by
  rw [headUnit, highByte_unitOf, Opcode.highByte_value h, UInt8.zero_or]

/-- The opcode is got back from the first unit, of which that of `nop` must hold nothing else. -/
theorem opcode?_headUnit (h : o.format.isPayload = false) {high : UInt8}
    (hnop : o = .nop → high = 0) : opcode? (headUnit o high) = some o := by
  rw [opcode?, lowByte_headUnit]
  have hvalue : unitOf (lowByte o.value) 0 = o.value := by
    rw [← Opcode.highByte_value h]
    exact unitOf_lowByte_highByte o.value
  split
  · next hzero =>
    have hhigh := hnop (Opcode.eq_nop_of_lowByte_value h hzero)
    rw [headUnit, Opcode.highByte_value h, hhigh, UInt8.zero_or, hvalue, Opcode.ofValue?_value]
  · have hlow : (lowByte o.value).toUInt16 = o.value := by
      have hunit : ∀ x : UInt8, unitOf x 0 = x.toUInt16 := fun x => by simp [unitOf]
      rw [← hunit, hvalue]
    rw [hlow, Opcode.ofValue?_value]

/-- The marker of a payload is told from a `nop` by its whole unit. -/
theorem opcode?_value (h : o.format.isPayload = true) : opcode? o.value = some o := by
  rw [opcode?, if_pos (Opcode.lowByte_value h), Opcode.ofValue?_value]

theorem lowByte_toUInt16 (x : UInt8) : lowByte x.toUInt16 = x := by
  simp [lowByte]

/-- The first unit of an instruction is made of its opcode and of its high byte, and that of `nop`
has none. -/
theorem headUnit_highByte {first : UInt16} (h : opcode? first = some o)
    (hno : o.format.isPayload = false) :
    headUnit o (highByte first) = first ∧ (o = .nop → highByte first = 0) := by
  have hhigh := Opcode.highByte_value hno
  have hvalue := Opcode.value_of_ofValue? h
  rw [headUnit, hhigh, UInt8.zero_or]
  split at hvalue
  · rw [hvalue] at hhigh ⊢
    exact ⟨unitOf_lowByte_highByte first, fun _ => hhigh⟩
  · next hlow =>
    have hlowByte : lowByte o.value = lowByte first := by
      rw [hvalue, lowByte_toUInt16]
    refine ⟨by rw [hlowByte, unitOf_lowByte_highByte], fun hnop => absurd ?_ hlow⟩
    rw [← hlowByte, hnop]
    rfl

/-- The first unit of a payload is its marker. -/
theorem value_of_opcode? {first : UInt16} (h : opcode? first = some o)
    (hpayload : o.format.isPayload = true) : o.value = first := by
  have hvalue := Opcode.value_of_ofValue? h
  split at hvalue
  · exact hvalue
  · next hlow =>
    have hzero := Opcode.lowByte_value hpayload
    rw [hvalue, lowByte_toUInt16] at hzero
    exact absurd hzero hlow

/-! ### Offsets -/

theorem toInt32_toInt8 {t : Int32} (h : Reach.byte.fits t.toInt = true) :
    t.toInt8.toInt32 = t := by
  simp only [Reach.fits, Bool.and_eq_true, decide_eq_true_eq] at h
  rw [← Int32.toInt_inj, Int8.toInt_toInt32, Int32.toInt_toInt8]
  exact Int.bmod_eq_of_le (by omega) (by omega)

theorem toInt32_toInt16 {t : Int32} (h : Reach.word.fits t.toInt = true) :
    t.toInt16.toInt32 = t := by
  simp only [Reach.fits, Bool.and_eq_true, decide_eq_true_eq] at h
  rw [← Int32.toInt_inj, Int16.toInt_toInt32, Int32.toInt_toInt16]
  exact Int.bmod_eq_of_le (by omega) (by omega)

/-! ### Words -/

theorem wordOf_wordUnits (w : UInt32) : wordOf w.toUInt16 (w / 65536).toUInt16 = w := by
  apply UInt32.toNat_inj.1
  have := w.toNat_lt
  simp only [wordOf, UInt32.toNat_add, UInt32.toNat_mul, UInt16.toNat_toUInt32,
    UInt32.toNat_toUInt16, UInt32.toNat_div, UInt32.reduceToNat]
  omega

theorem longOf_words (w : UInt64) :
    longOf w.toUInt32 (w / 4294967296).toUInt32 = w := by
  apply UInt64.toNat_inj.1
  have := w.toNat_lt
  simp only [longOf, UInt64.toNat_add, UInt64.toNat_mul, UInt32.toNat_toUInt64,
    UInt64.toNat_toUInt32, UInt64.toNat_div, UInt64.reduceToNat]
  omega

/-! ### Literals -/

/-- A literal of which only the high 16 of 32 bits are set is made of these. -/
theorem highBits32 {literal : Int32} (h : literal.toInt % 65536 = 0) :
    (65536 * (literal.toUInt32 / 65536).toUInt16.toUInt32).toInt32 = literal := by
  have hsigned : literal.toInt = if 2 * literal.toUInt32.toNat < 2 ^ 32
      then (literal.toUInt32.toNat : Int) else literal.toUInt32.toNat - (2 ^ 32 : Nat) :=
    BitVec.toInt_eq_toNat_cond literal.toBitVec
  have hhigh : 65536 * (literal.toUInt32 / 65536).toUInt16.toUInt32 = literal.toUInt32 := by
    apply UInt32.toNat_inj.1
    have := literal.toUInt32.toNat_lt
    simp only [UInt32.toNat_mul, UInt16.toNat_toUInt32, UInt32.toNat_toUInt16, UInt32.toNat_div,
      UInt32.reduceToNat]
    split at hsigned <;> omega
  rw [hhigh, Int32.toInt32_toUInt32]

theorem highBits64 {literal : Int64} (h : literal.toInt % 281474976710656 = 0) :
    (281474976710656 * (literal.toUInt64 / 281474976710656).toUInt16.toUInt64).toInt64 =
      literal := by
  have hsigned : literal.toInt = if 2 * literal.toUInt64.toNat < 2 ^ 64
      then (literal.toUInt64.toNat : Int) else literal.toUInt64.toNat - (2 ^ 64 : Nat) :=
    BitVec.toInt_eq_toNat_cond literal.toBitVec
  have hhigh : 281474976710656 * (literal.toUInt64 / 281474976710656).toUInt16.toUInt64 =
      literal.toUInt64 := by
    apply UInt64.toNat_inj.1
    have := literal.toUInt64.toNat_lt
    simp only [UInt64.toNat_mul, UInt16.toNat_toUInt64, UInt64.toNat_toUInt16, UInt64.toNat_div,
      UInt64.reduceToNat]
    split at hsigned <;> omega
  rw [hhigh, Int64.toInt64_toUInt64]

/-- A literal of four bits comes back with its sign. -/
theorem highNibbleSigned_nibbles (a : UInt8) {literal : Int8} (hlow : -8 ≤ literal)
    (hhigh : literal ≤ 7) : highNibbleSigned (nibbles a literal.toUInt8) = literal := by
  have hsigned : ∀ x : Int8, x.toInt = if 2 * x.toUInt8.toNat < 2 ^ 8
      then (x.toUInt8.toNat : Int) else x.toUInt8.toNat - (2 ^ 8 : Nat) :=
    fun x => BitVec.toInt_eq_toNat_cond x.toBitVec
  have hliteral := hsigned literal
  have hpacked := hsigned (nibbles a literal.toUInt8).toInt8
  have hunsigned : (nibbles a literal.toUInt8).toNat =
      (a.toNat % 16 + 16 * literal.toUInt8.toNat) % 256 := by
    simp [nibbles]
  rw [UInt8.toUInt8_toInt8, hunsigned] at hpacked
  have hlow' : -8 ≤ literal.toInt := Int8.le_iff_toInt_le.1 hlow
  have hhigh' : literal.toInt ≤ 7 := Int8.le_iff_toInt_le.1 hhigh
  have := literal.toUInt8.toNat_lt
  rw [highNibbleSigned, ← Int8.toInt_inj, Int8.toInt_ofInt_of_le] <;>
    split at hliteral <;> split at hpacked <;> omega

/-! ### Bytes made again of their halves -/

theorem lowNibble_lt (x : UInt8) : lowNibble x < 16 := by
  rw [lowNibble, UInt8.lt_iff_toNat_lt, UInt8.toNat_mod]
  exact Nat.mod_lt _ (by decide)

theorem highNibble_lt (x : UInt8) : highNibble x < 16 := by
  have := x.toNat_lt
  rw [highNibble, UInt8.lt_iff_toNat_lt, UInt8.toNat_div]
  simp only [UInt8.reduceToNat]
  omega

theorem nibbles_lowNibble_highNibble (x : UInt8) : nibbles (lowNibble x) (highNibble x) = x := by
  apply UInt8.toNat_inj.1
  have := x.toNat_lt
  simp only [nibbles, lowNibble, highNibble, UInt8.toNat_add, UInt8.toNat_mul, UInt8.toNat_mod,
    UInt8.toNat_div, UInt8.reduceToNat]
  omega

theorem nibbles_lowNibble_zero (x : UInt8) : nibbles (lowNibble x) 0 = x &&& 0x0f := by
  apply UInt8.toNat_inj.1
  have hlow : x.toNat &&& 15 = x.toNat % 16 := Nat.and_two_pow_sub_one_eq_mod x.toNat 4
  simp only [nibbles, lowNibble, UInt8.toNat_add, UInt8.toNat_mul, UInt8.toNat_mod, UInt8.toNat_and,
    UInt8.reduceToNat, hlow]
  omega

/-- What holds of 256 bytes holds of all of them. -/
private theorem forall_uint8 {p : UInt8 → Prop} (h : ∀ k : Fin 256, p (.ofNat k)) (x : UInt8) :
    p x := by
  have hx := h ⟨x.toNat, x.toNat_lt⟩
  simpa using hx

set_option maxRecDepth 4000 in
theorem nibbles_zero_highNibble : ∀ x : UInt8, nibbles 0 (highNibble x) = x &&& 0xf0 :=
  forall_uint8 (by decide)

set_option maxRecDepth 4000 in
theorem nibbles_lowNibble_highNibbleSigned :
    ∀ x : UInt8, nibbles (lowNibble x) (highNibbleSigned x).toUInt8 = x :=
  forall_uint8 (by decide)

/-! ### Units made again of offsets, words and literals -/

theorem offset8_toInt8 (o : Opcode) (x : UInt8) : offset8 o x.toInt8.toInt32 = .ok x := by
  have hfits : Reach.byte.fits x.toInt8.toInt32.toInt = true := by
    have hlow := x.toInt8.le_toInt
    have hhigh := x.toInt8.toInt_lt
    simp only [Reach.fits, Int8.toInt_toInt32, Bool.and_eq_true, decide_eq_true_eq]
    omega
  rw [offset8, if_pos hfits]
  simp

theorem offset16_toInt16 (o : Opcode) (u : UInt16) : offset16 o u.toInt16.toInt32 = .ok u := by
  have hfits : Reach.word.fits u.toInt16.toInt32.toInt = true := by
    have hlow := u.toInt16.le_toInt
    have hhigh := u.toInt16.toInt_lt
    simp only [Reach.fits, Int16.toInt_toInt32, Bool.and_eq_true, decide_eq_true_eq]
    omega
  rw [offset16, if_pos hfits]
  simp

theorem wordUnits_wordOf (u v : UInt16) : wordUnits (wordOf u v) = [u, v] := by
  have hu := u.toNat_lt
  have hv := v.toNat_lt
  have hlow : (wordOf u v).toUInt16 = u := by
    apply UInt16.toNat_inj.1
    simp only [wordOf, UInt32.toNat_toUInt16, UInt32.toNat_add, UInt32.toNat_mul,
      UInt16.toNat_toUInt32, UInt32.reduceToNat]
    omega
  have hhigh : (wordOf u v / 65536).toUInt16 = v := by
    apply UInt16.toNat_inj.1
    simp only [wordOf, UInt32.toNat_toUInt16, UInt32.toNat_div, UInt32.toNat_add, UInt32.toNat_mul,
      UInt16.toNat_toUInt32, UInt32.reduceToNat]
    omega
  rw [wordUnits, hlow, hhigh]

theorem longUnits_longOf (a b : UInt32) : longUnits (longOf a b) = wordUnits a ++ wordUnits b := by
  have ha := a.toNat_lt
  have hb := b.toNat_lt
  have hlow : (longOf a b).toUInt32 = a := by
    apply UInt32.toNat_inj.1
    simp only [longOf, UInt64.toNat_toUInt32, UInt64.toNat_add, UInt64.toNat_mul,
      UInt32.toNat_toUInt64, UInt64.reduceToNat]
    omega
  have hhigh : (longOf a b / 4294967296).toUInt32 = b := by
    apply UInt32.toNat_inj.1
    simp only [longOf, UInt64.toNat_toUInt32, UInt64.toNat_div, UInt64.toNat_add, UInt64.toNat_mul,
      UInt32.toNat_toUInt64, UInt64.reduceToNat]
    omega
  rw [longUnits, hlow, hhigh]

/-- The unit behind a literal of which only the high 16 of 32 bits are stored. -/
theorem highUnit32 (u : UInt16) :
    ((65536 * u.toUInt32).toInt32.toUInt32 / 65536).toUInt16 = u := by
  rw [UInt32.toUInt32_toInt32]
  apply UInt16.toNat_inj.1
  have := u.toNat_lt
  simp only [UInt32.toNat_toUInt16, UInt32.toNat_div, UInt32.toNat_mul, UInt16.toNat_toUInt32,
    UInt32.reduceToNat]
  omega

theorem highUnit64 (u : UInt16) :
    ((281474976710656 * u.toUInt64).toInt64.toUInt64 / 281474976710656).toUInt16 = u := by
  rw [UInt64.toUInt64_toInt64]
  apply UInt16.toNat_inj.1
  have := u.toNat_lt
  simp only [UInt64.toNat_toUInt16, UInt64.toNat_div, UInt64.toNat_mul, UInt16.toNat_toUInt64,
    UInt64.reduceToNat]
  omega

end Code

end Dalvik
