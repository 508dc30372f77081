/-
# Quoted texts

How a text is shown inside a message: between double quotes, with these escapes.

| character | shown as |
| --- | --- |
| `"`, `\` | with a backslash in front |
| NUL, tab, line feed, carriage return | `\0`, `\t`, `\n`, `\r` |
| any other unprintable character | its code point in hexadecimal, `\u{200b}` |
| all else, `'` included | itself |
-/

import TokenGovernance.Text.Unprintable

namespace TokenGovernance
namespace Quoted

/-- A character as it stands between the quotes. -/
def escape (c : Char) : String :=
  match c with
  | '\x00' => "\\0"
  | '\t' => "\\t"
  | '\n' => "\\n"
  | '\r' => "\\r"
  | '\x22' => "\\\""
  | '\x5c' => "\\\\"
  | c =>
    if isUnprintable c then
      "\\u\x7b" ++ String.ofList (Nat.toDigits 16 c.toNat) ++ "\x7d"
    else c.toString

/-- The text between double quotes. -/
def render (s : String) : String := "\"" ++ String.join (s.toList.map escape) ++ "\""

end Quoted
end TokenGovernance
