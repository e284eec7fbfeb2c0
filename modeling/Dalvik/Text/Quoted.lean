import Dalvik.Text.Hex
import Dalvik.Text.Visibility

/-!
# Quoted text

Text within double quotes on one line.  What would end the quotation or break the line, and every
character without a printed form of its own, is escaped; everything else stands for itself.
-/

namespace Dalvik.Text

/-- One character within quotes. -/
def escaped (c : Char) : String :=
  match c with
  | '"' => "\\\""
  | '\\' => "\\\\"
  | '\n' => "\\n"
  | '\r' => "\\r"
  | '\t' => "\\t"
  | '\x00' => "\\0"
  | c => if isShown c then c.toString else "\\u\x7b" ++ hexDigits c.toNat ++ "\x7d"

/-- Text within double quotes. -/
def quoted (s : String) : String :=
  "\"" ++ String.join (s.toList.map escaped) ++ "\""

end Dalvik.Text
