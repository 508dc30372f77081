/-
# JSON texts

A JSON text is a value with blanks around it. Lists and objects are nested at most 127 deep; in a
text, a control character must be escaped, and an escaped surrogate must be one half of a pair. Of
two members of an object with the same name the later one counts.
-/

import TokenGovernance.Json.Number

namespace TokenGovernance
namespace Json

/-- A JSON value. -/
inductive Value where
  | null
  | bool (b : Bool)
  | number (n : Number)
  | text (s : String)
  | array (items : List Value)
  | object (members : List (String × Value))

/-- The value of the last member with a name. -/
def member? (members : List (String × Value)) (name : String) : Option Value :=
  members.reverse.lookup name

/-! ## Texts -/

/-- The characters that stand for a character inside quotes. -/
def escape (c : Char) : List Char :=
  match c with
  | '\x22' => ['\x5c', '\x22']
  | '\x5c' => ['\x5c', '\x5c']
  | '\x08' => ['\x5c', 'b']
  | '\x09' => ['\x5c', 't']
  | '\x0a' => ['\x5c', 'n']
  | '\x0c' => ['\x5c', 'f']
  | '\x0d' => ['\x5c', 'r']
  | c =>
    if c.toNat < 0x20 then
      ['\x5c', 'u', '0', '0', Nat.digitChar (c.toNat / 16), Nat.digitChar (c.toNat % 16)]
    else [c]

/-- A text between quotes. -/
def quote (s : String) : String := "\"" ++ String.ofList (s.toList.flatMap escape) ++ "\""

/-- The character that a letter after a backslash stands for. -/
def unescape? : Char → Option Char
  | '\x22' => some '\x22'
  | '\x5c' => some '\x5c'
  | '/' => some '/'
  | 'b' => some '\x08'
  | 'f' => some '\x0c'
  | 'n' => some '\x0a'
  | 'r' => some '\x0d'
  | 't' => some '\x09'
  | _ => none

/-- The value of a hexadecimal digit. -/
def hexDigit? (c : Char) : Option Nat :=
  if c.isDigit then some (c.toNat - '0'.toNat)
  else if 'a' ≤ c ∧ c ≤ 'f' then some (c.toNat - 'a'.toNat + 10)
  else if 'A' ≤ c ∧ c ≤ 'F' then some (c.toNat - 'A'.toNat + 10)
  else none

/-- The value of four hexadecimal digits. -/
def hexWord? (a b c d : Char) : Option Nat := do
  return (((← hexDigit? a) * 16 + (← hexDigit? b)) * 16 + (← hexDigit? c)) * 16 + (← hexDigit? d)

/-- The characters of a text up to the quote at its end, and what follows the quote. -/
def unquote? : List Char → Option (List Char × List Char)
  | [] => none
  | '\x22' :: rest => some ([], rest)
  | '\x5c' :: 'u' :: a :: b :: c :: d :: rest => do
    let high ← hexWord? a b c d
    if high < 0xD800 ∨ 0xDFFF < high then
      let (cs, after) ← unquote? rest
      return (Char.ofNat high :: cs, after)
    else if 0xDBFF < high then none
    else
      match rest with
      | '\x5c' :: 'u' :: e :: f :: g :: h :: rest => do
        let low ← hexWord? e f g h
        if low < 0xDC00 ∨ 0xDFFF < low then none
        else
          let (cs, after) ← unquote? rest
          return (Char.ofNat (0x10000 + (high - 0xD800) * 0x400 + (low - 0xDC00)) :: cs, after)
      | _ => none
  | '\x5c' :: c :: rest => do
    let c ← unescape? c
    let (cs, after) ← unquote? rest
    return (c :: cs, after)
  | c :: rest =>
    if c.toNat < 0x20 then none
    else do
      let (cs, after) ← unquote? rest
      return (c :: cs, after)

/-- Takes a text. -/
def quoted : TextReader String := do
  TextReader.char '\x22'
  String.ofList <$> (unquote? : TextReader (List Char))

/-! ## Written values -/

mutual

/-- The text of a value, without blanks. -/
def Value.render : Value → String
  | .null => "null"
  | .bool b => if b then "true" else "false"
  | .number n => n.render
  | .text s => quote s
  | .array items => "[" ++ ",".intercalate (renderItems items) ++ "]"
  | .object members => "\x7b" ++ ",".intercalate (renderMembers members) ++ "\x7d"

/-- The texts of the items of a list. -/
def renderItems : List Value → List String
  | [] => []
  | v :: rest => v.render :: renderItems rest

/-- The texts of the members of an object. -/
def renderMembers : List (String × Value) → List String
  | [] => []
  | m :: rest => renderMember m :: renderMembers rest

/-- The text of a member of an object. -/
def renderMember : String × Value → String
  | (name, v) => quote name ++ ":" ++ v.render

end

/-! ## Reading values -/

/-- Drops blanks. -/
def blanks : TextReader Unit :=
  TextReader.dropWhile fun c => c = ' ' || c = '\n' || c = '\t' || c = '\r'

/-- Takes the items of a list or an object, blanks around each, up to the closing character. -/
def items {α : Type} (close : Char) (item : TextReader α) : TextReader (List α) := do
  blanks
  if (← TextReader.peek) = some close then
    TextReader.char close
    return []
  let spaced : TextReader α := do
    blanks
    let a ← item
    blanks
    return a
  let all ← TextReader.separated (TextReader.char ',') spaced
  TextReader.char close
  return all

/-- Takes a member of an object. -/
def member (value : TextReader Value) : TextReader (String × Value) := do
  let name ← quoted
  blanks
  TextReader.char ':'
  blanks
  return (name, ← value)

/-- Takes a value that is no list and no object. -/
def scalar : TextReader Value := do
  match ← TextReader.peek with
  | some 'n' => do
    TextReader.literal ['n', 'u', 'l', 'l']
    return .null
  | some 't' => do
    TextReader.literal ['t', 'r', 'u', 'e']
    return .bool true
  | some 'f' => do
    TextReader.literal ['f', 'a', 'l', 's', 'e']
    return .bool false
  | some '\x22' => .text <$> quoted
  | _ => .number <$> Number.read

/-- Takes a list or an object. -/
def container (value : TextReader Value) : TextReader Value := do
  match ← TextReader.peek with
  | some '[' => do
    TextReader.char '['
    .array <$> items ']' value
  | _ => do
    TextReader.char '\x7b'
    .object <$> items '\x7d' (member value)

/-- Takes a value that is nested at most `depth` deep. -/
def value : (depth : Nat) → TextReader Value
  | 0 => scalar
  | depth + 1 => scalar <|> container (value depth)

/-- The value of a JSON text. -/
def parse? (s : String) : Option Value :=
  TextReader.readAll? (do
    blanks
    let v ← value 127
    blanks
    return v) s

end Json
end TokenGovernance
