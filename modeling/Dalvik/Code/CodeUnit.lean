/-!
# Code units

Code is a sequence of 16-bit units, each stored as two bytes, the low one first.  This module holds
the conversions between units and the fields packed into them: bytes and nibbles within a unit,
words of 32 and 64 bits across several.  They are written with arithmetic on the value of a field,
not with masks, so that the laws relating them are statements about numbers.
-/

namespace Dalvik.Code

/-- The unit made of two bytes. -/
def unitOf (low high : UInt8) : UInt16 := low.toUInt16 + 256 * high.toUInt16

/-- The low byte of a unit. -/
def lowByte (u : UInt16) : UInt8 := u.toUInt8

/-- The high byte of a unit. -/
def highByte (u : UInt16) : UInt8 := (u / 256).toUInt8

/-- The byte made of the low halves of two others, `a` in the low half. -/
def nibbles (a b : UInt8) : UInt8 := a % 16 + 16 * b

/-- The low half of a byte. -/
def lowNibble (x : UInt8) : UInt8 := x % 16

/-- The high half of a byte. -/
def highNibble (x : UInt8) : UInt8 := x / 16

/-- The high half of a byte as a signed number. -/
def highNibbleSigned (x : UInt8) : Int8 := Int8.ofInt (x.toInt8.toInt / 16)

/-! ### Fields of a unit are independent of each other -/

@[simp] theorem lowByte_unitOf (low high : UInt8) : lowByte (unitOf low high) = low := by
  apply UInt8.toNat_inj.1
  simp [lowByte, unitOf]

@[simp] theorem highByte_unitOf (low high : UInt8) : highByte (unitOf low high) = high := by
  apply UInt8.toNat_inj.1
  have := low.toNat_lt
  have := high.toNat_lt
  simp only [highByte, unitOf, UInt16.toNat_toUInt8, UInt16.toNat_div, UInt16.toNat_add,
    UInt16.toNat_mul, UInt8.toNat_toUInt16, UInt16.reduceToNat]
  omega

/-- A unit is nothing but its two bytes. -/
@[simp] theorem unitOf_lowByte_highByte (u : UInt16) : unitOf (lowByte u) (highByte u) = u := by
  apply UInt16.toNat_inj.1
  have := u.toNat_lt
  simp only [highByte, lowByte, unitOf, UInt16.toNat_toUInt8, UInt16.toNat_div, UInt16.toNat_add,
    UInt16.toNat_mul, UInt8.toNat_toUInt16, UInt16.reduceToNat]
  omega

/-- The low half comes back if it is no more than that. -/
theorem lowNibble_nibbles {a b : UInt8} (h : a < 16) : lowNibble (nibbles a b) = a := by
  apply UInt8.toNat_inj.1
  have := UInt8.lt_iff_toNat_lt.1 h
  simp [lowNibble, nibbles] at *
  omega

/-- The high half comes back if it is no more than that. -/
theorem highNibble_nibbles {a b : UInt8} (h : b < 16) : highNibble (nibbles a b) = b := by
  apply UInt8.toNat_inj.1
  have := UInt8.lt_iff_toNat_lt.1 h
  have := a.toNat_lt
  simp [highNibble, nibbles] at *
  omega

/-! ### Fields across units -/

/-- The word made of two units, the low one first. -/
def wordOf (low high : UInt16) : UInt32 := low.toUInt32 + 65536 * high.toUInt32

/-- A word as two units. -/
def wordUnits (w : UInt32) : List UInt16 := [w.toUInt16, (w / 65536).toUInt16]

/-- The long word made of two words, the low one first. -/
def longOf (low high : UInt32) : UInt64 := low.toUInt64 + 4294967296 * high.toUInt64

/-- A long word as four units. -/
def longUnits (w : UInt64) : List UInt16 :=
  wordUnits w.toUInt32 ++ wordUnits (w / 4294967296).toUInt32

/-- The bytes of a sequence of units. -/
def bytesOfUnits (units : List UInt16) : List UInt8 :=
  units.flatMap fun u => [lowByte u, highByte u]

/-- The whole units in a sequence of bytes; an odd byte at the end belongs to none. -/
def unitsOfBytes (bytes : List UInt8) : List UInt16 := go [] bytes
where
  /-- Puts the units of the bytes behind those that are given last one first. -/
  go (before : List UInt16) : List UInt8 → List UInt16
    | low :: high :: rest => go (unitOf low high :: before) rest
    | _ => before.reverse

/-- The signed words in a sequence of units; an odd unit at the end belongs to none. -/
def wordsOfUnits (units : List UInt16) : List Int32 := go [] units
where
  /-- Puts the words of the units behind those that are given last one first. -/
  go (before : List Int32) : List UInt16 → List Int32
    | low :: high :: rest => go ((wordOf low high).toInt32 :: before) rest
    | _ => before.reverse

end Dalvik.Code
