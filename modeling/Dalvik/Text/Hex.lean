/-!
# Hexadecimal numbers
-/

namespace Dalvik.Text

/-- Hexadecimal digits of a number, without leading zeros. -/
def hexDigits (n : Nat) : String := String.ofList (Nat.toDigits 16 n)

/-- A number in hexadecimal, marked by `0x` and padded with zeros to at least four digits. -/
def hexAddress (n : Nat) : String :=
  let digits := hexDigits n
  "0x" ++ String.ofList (List.replicate (4 - digits.length) '0') ++ digits

end Dalvik.Text
