/-
Quoted text: double quotes around it, a backslash before a quote or a backslash, short escapes for
the usual control characters, and the code point in braces for every other character that would
not show as itself.
-/
import ColumnStream.Text.Printable

namespace ColumnStream.Text

/-- Digits of a code point, without leading zeros. -/
def hexDigits (n : Nat) : String := String.ofList (Nat.toDigits 16 n)

def escape (c : Char) : String :=
  match c with
  | '"' => "\\\""
  | '\\' => "\\\\"
  | '\n' => "\\n"
  | '\t' => "\\t"
  | '\r' => "\\r"
  | '\x00' => "\\0"
  | c => if isPrintable c then c.toString else "\\u\x7b" ++ hexDigits c.toNat ++ "\x7d"

def quoted (s : String) : String :=
  "\"" ++ String.join (s.toList.map escape) ++ "\""

example : quoted "it's \"é\"\n\x01" = "\"it's \\\"é\\\"\\n\\u\x7b1\x7d\"" := by decide +kernel

end ColumnStream.Text
