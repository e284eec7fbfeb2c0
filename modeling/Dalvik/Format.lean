/-!
# Encoding formats

A format fixes how many code units an instruction occupies and which operands it carries.  The
usual identifiers are kept: the first digit is the size in code units, the second the number of
registers, and the trailing letters name the extra operand (`t` a branch target, `c` a pool
reference, `n`, `s`, `b`, `i`, `l`, `h` literals of various widths, `x` nothing).

Three formats belong to no executable instruction.  They lay out the data which switches and array
initialisers point at, and their size depends on the amount of data.
-/

namespace Dalvik

/-- How far an unconditional jump can go: the width of its offset. -/
inductive Reach where
  /-- An 8-bit offset, in the high byte of the only code unit. -/
  | byte
  /-- A 16-bit offset, in a code unit of its own. -/
  | word
  /-- A 32-bit offset, which no method is long enough to exceed. -/
  | long
  deriving DecidableEq, Inhabited

namespace Reach

/-- Size in code units of a jump with this reach. -/
def units : Reach → Nat
  | byte => 1
  | word => 2
  | long => 3

/-- Whether a jump with this reach can cross `offset` code units. -/
def fits : Reach → Int → Bool
  | byte, offset => -128 ≤ offset && offset ≤ 127
  | word, offset => -32768 ≤ offset && offset ≤ 32767
  | long, _ => true

/-- The shortest reach that crosses `offset` code units. -/
def least (offset : Int) : Reach :=
  if byte.fits offset then byte else if word.fits offset then word else long

/-- Reaches never shrink: a jump that already crosses `offset` keeps its own, any other one gets
the shortest that does. -/
def widen (r : Reach) (offset : Int) : Reach :=
  if r.fits offset then r else least offset

/-- The shortest reach that crosses an offset does cross it. -/
theorem fits_least (offset : Int) : (least offset).fits offset = true := by
  unfold least
  split
  · assumption
  · split
    · assumption
    · rfl

/-- A widened jump gets there. -/
theorem fits_widen (r : Reach) (offset : Int) : (r.widen offset).fits offset = true := by
  unfold widen
  split
  · assumption
  · exact fits_least offset

/-- Widening takes room and never gives any back. -/
theorem units_le_units_widen (r : Reach) (offset : Int) : r.units ≤ (r.widen offset).units := by
  unfold widen
  split
  · exact Nat.le_refl _
  · next short =>
    -- whatever crosses the offset is not shorter than a jump that falls short of it
    have fits := fits_least offset
    cases r with
    | byte => cases least offset <;> decide
    | word =>
      cases h : least offset with
      | byte =>
        rw [h] at fits
        simp [Reach.fits] at fits short
        omega
      | word => exact Nat.le_refl _
      | long => decide
    | long => exact absurd rfl short

end Reach

/-- What the 16-bit index of a call with a list of argument registers refers to. -/
inductive IndexKind where
  /-- An entry of the constant pool. -/
  | pool
  /-- An entry of the table of inlined methods. -/
  | inlined
  /-- A slot of the receiver's method table. -/
  | vtable
  deriving DecidableEq, Inhabited

/-- Encoding format of an instruction. -/
inductive Format where
  | f10t | f10x
  | f11n | f11x
  | f12x
  | f20bc | f20t
  | f21c | f21ih | f21lh | f21s | f21t
  | f22b | f22c | f22cs | f22s | f22t | f22x
  | f23x
  | f30t
  | f31c | f31i | f31t
  | f32x
  | f35c | f35mi | f35ms
  | f3rc | f3rmi | f3rms
  | f45cc | f4rcc
  | f51l
  | packedSwitch | sparseSwitch | arrayData
  deriving DecidableEq, Inhabited

namespace Format

/-- The identifier of a format; a payload's is the kind of data it holds. -/
def name : Format → String
  | f10t => "10t" | f10x => "10x"
  | f11n => "11n" | f11x => "11x"
  | f12x => "12x"
  | f20bc => "20bc" | f20t => "20t"
  | f21c => "21c" | f21ih => "21ih" | f21lh => "21lh" | f21s => "21s" | f21t => "21t"
  | f22b => "22b" | f22c => "22c" | f22cs => "22cs" | f22s => "22s" | f22t => "22t" | f22x => "22x"
  | f23x => "23x"
  | f30t => "30t"
  | f31c => "31c" | f31i => "31i" | f31t => "31t"
  | f32x => "32x"
  | f35c => "35c" | f35mi => "35mi" | f35ms => "35ms"
  | f3rc => "3rc" | f3rmi => "3rmi" | f3rms => "3rms"
  | f45cc => "45cc" | f4rcc => "4rcc"
  | f51l => "51l"
  | packedSwitch => "packed" | sparseSwitch => "sparse" | arrayData => "array"

/-- Every format. -/
def all : List Format :=
  [f10t, f10x, f11n, f11x, f12x, f20bc, f20t, f21c, f21ih, f21lh, f21s, f21t, f22b, f22c, f22cs,
    f22s, f22t, f22x, f23x, f30t, f31c, f31i, f31t, f32x, f35c, f35mi, f35ms, f3rc, f3rmi, f3rms,
    f45cc, f4rcc, f51l, packedSwitch, sparseSwitch, arrayData]

/-- The format with a given identifier. -/
def ofName? (name : String) : Option Format :=
  all.find? (·.name == name)

/-- Size in code units, where the format alone fixes it. -/
def units? : Format → Option Nat
  | f10t | f10x | f11n | f11x | f12x => some 1
  | f20bc | f20t | f21c | f21ih | f21lh | f21s | f21t | f22b | f22c | f22cs | f22s | f22t | f22x
  | f23x => some 2
  | f30t | f31c | f31i | f31t | f32x | f35c | f35mi | f35ms | f3rc | f3rmi | f3rms => some 3
  | f45cc | f4rcc => some 4
  | f51l => some 5
  | packedSwitch | sparseSwitch | arrayData => none

/-- Payloads are data; they are never executed. -/
def isPayload : Format → Bool
  | packedSwitch | sparseSwitch | arrayData => true
  | _ => false

/-- Exactly the payloads have no fixed size. -/
theorem units?_eq_none_iff (f : Format) : f.units? = none ↔ f.isPayload = true := by
  cases f <;> simp [units?, isPayload]

end Format

/-- The format of a jump with a given reach. -/
def Reach.format : Reach → Format
  | byte => .f10t
  | word => .f20t
  | long => .f30t

/-- The format of a call with up to five listed registers. -/
def IndexKind.listFormat : IndexKind → Format
  | pool => .f35c
  | inlined => .f35mi
  | vtable => .f35ms

/-- The format of a call with a range of registers. -/
def IndexKind.rangeFormat : IndexKind → Format
  | pool => .f3rc
  | inlined => .f3rmi
  | vtable => .f3rms

end Dalvik
