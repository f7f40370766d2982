import Coupling.Text.Unprintable

/-!
# Texts quoted for a message

A quoted text stands between double quotes; quotes, backslashes and the usual controls are written
with a backslash, every other unprintable character by its code point in hexadecimal.
-/

namespace Coupling.Text

def escape (c : Char) : String :=
  match c with
  | '\x00' => "\\0"
  | '\t' => "\\t"
  | '\n' => "\\n"
  | '\r' => "\\r"
  | '"' => "\\\""
  | '\\' => "\\\\"
  | c =>
    if isUnprintable c then
      "\\u\x7b" ++ String.ofList (Nat.toDigits 16 c.toNat) ++ "\x7d"
    else c.toString

def quoted (s : String) : String :=
  "\"" ++ String.join (s.toList.map escape) ++ "\""

end Coupling.Text
