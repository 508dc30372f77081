/-
# TOML texts

A text has four written forms. The literal forms hold the characters as they are, the basic ones
with escapes; the forms over several lines have three quotes at each end, may hold quotes of their
own kind, and drop a line break after the opening quotes.

| form | quotes | written when |
| --- | --- | --- |
| `basic` | `"…"` | no line break, `"` or `\`; or nothing else fits |
| `literal` | `'…'` | no line break and no `'` |
| `basicLines` | `"""…"""` | no `\`, and no three `"` in a row; or nothing else fits a line break |
| `literalLines` | `'''…'''` | no three `'` in a row |

The first form that fits is written. Control characters other than tabs and line breaks need an
escape, so only a last resort fits them. To choose the form, the quotes of a kind that follow each
other are counted in one byte; a text with more of them than that counts is not written at all.
-/

import TokenGovernance.Text.Reader

namespace TokenGovernance
namespace Toml

/-- The written forms of a text. -/
inductive TextForm where
  | basic
  | literal
  | basicLines
  | literalLines
deriving DecidableEq

/-! ## Writing -/

/-- The length of the longest row of `c`, of which `run` have just been seen. -/
def longestRun (c : Char) : (run : Nat) → List Char → Nat
  | run, [] => run
  | run, d :: cs => if d = c then longestRun c (run + 1) cs else max run (longestRun c 0 cs)

/-- Whether a character needs an escape by its number or a letter. -/
def isControl (c : Char) : Bool :=
  (c.toNat < 0x20 || c = '\x7f') && c ≠ '\t' && c ≠ '\n'

/-- The form in which a text is written. -/
def formOf (cs : List Char) : TextForm :=
  let lines := cs.contains '\n'
  let plain := !cs.any isControl
  let backslash := cs.contains '\x5c'
  let double := longestRun '\x22' 0 cs
  let single := longestRun '\x27' 0 cs
  if plain && !backslash && double = 0 && !lines then .basic
  else if plain && single = 0 && !lines then .literal
  else if plain && !backslash && double ≤ 2 then .basicLines
  else if plain && single ≤ 2 then .literalLines
  else if lines then .basicLines
  else .basic

/-- Four hexadecimal digits. -/
def hexWord (n : Nat) : List Char :=
  [n / 0x1000 % 0x10, n / 0x100 % 0x10, n / 0x10 % 0x10, n % 0x10].map fun d =>
    (Nat.digitChar d).toUpper

/-- A character in a basic form, other than a double quote. -/
def escape (lines : Bool) (c : Char) : List Char :=
  match c with
  | '\x08' => ['\x5c', 'b']
  | '\x09' => ['\x5c', 't']
  | '\x0a' => if lines then ['\n'] else ['\x5c', 'n']
  | '\x0c' => ['\x5c', 'f']
  | '\x0d' => ['\x5c', 'r']
  | '\x5c' => ['\x5c', '\x5c']
  | c => if isControl c then '\x5c' :: 'u' :: hexWord c.toNat else [c]

/-- The characters of a text in a basic form, after `run` double quotes in a row: as many as the
form can hold stay as they are, and the next one is escaped. -/
def escapeAll (lines : Bool) : (run : Nat) → List Char → List Char
  | _, [] => []
  | run, c :: cs =>
    if c = '\x22' then
      if run < (if lines then 2 else 0) then '\x22' :: escapeAll lines (run + 1) cs
      else '\x5c' :: '\x22' :: escapeAll lines 0 cs
    else escape lines c ++ escapeAll lines 0 cs

/-- A line break after the opening quotes, for texts that have one themselves. -/
def opening (cs : List Char) : List Char := if cs.contains '\n' then ['\n'] else []

/-- A text as it is written. -/
def quote (cs : List Char) : List Char :=
  let double := ['\x22', '\x22', '\x22']
  let single := ['\x27', '\x27', '\x27']
  match formOf cs with
  | .basic => '\x22' :: escapeAll false 0 cs ++ ['\x22']
  | .literal => '\x27' :: cs ++ ['\x27']
  | .basicLines => double ++ opening cs ++ escapeAll true 0 cs ++ double
  | .literalLines => single ++ opening cs ++ cs ++ single

/-- The most quotes in a row that can be counted. -/
def greatestCount : Nat := 255

/-- A text as it is written, if the quotes in it can be counted. -/
def quote? (cs : List Char) : Option (List Char) :=
  if longestRun '\x22' 0 cs ≤ greatestCount ∧ longestRun '\x27' 0 cs ≤ greatestCount then
    some (quote cs)
  else none

/-! ## Reading -/

/-- Whether a character may stand for itself, quotes and backslashes apart. -/
def isPrintable (c : Char) : Bool := c = '\t' || (0x20 ≤ c.toNat && c ≠ '\x7f')

/-- The value of a hexadecimal digit. -/
def hexDigit? (c : Char) : Option Nat :=
  if c.isDigit then some (c.toNat - '0'.toNat)
  else if 'a' ≤ c ∧ c ≤ 'f' then some (c.toNat - 'a'.toNat + 10)
  else if 'A' ≤ c ∧ c ≤ 'F' then some (c.toNat - 'A'.toNat + 10)
  else none

/-- The character whose number is written in hexadecimal digits. -/
def characterOf? (digits : List Char) : Option Char := do
  let n ← digits.foldlM (fun n c => (16 * n + ·) <$> hexDigit? c) 0
  if n.isValidChar then return Char.ofNat n else none

/-- The character that a letter after a backslash stands for. -/
def unescape? : Char → Option Char
  | 'b' => some '\x08'
  | 't' => some '\x09'
  | 'n' => some '\x0a'
  | 'f' => some '\x0c'
  | 'r' => some '\x0d'
  | '\x22' => some '\x22'
  | '\x5c' => some '\x5c'
  | _ => none

/-- What a reader of texts has found: the characters of the text, and what follows it. -/
abbrev Found := Option (List Char × List Char)

/-- One more character in front of those that were found. -/
def push (c : Char) (found : Found) : Found := found.map fun (cs, rest) => (c :: cs, rest)

/-- Whether nothing but blanks follows up to the next line break. -/
def endsLine : List Char → Bool
  | ' ' :: cs => endsLine cs
  | '\t' :: cs => endsLine cs
  | '\n' :: _ => true
  | '\r' :: '\n' :: _ => true
  | _ => false

/-- The rest of a basic text on one line. -/
def basicRest : List Char → Found
  | [] => none
  | '\x22' :: cs => some ([], cs)
  | '\x5c' :: 'u' :: a :: b :: c :: d :: cs =>
    (characterOf? [a, b, c, d]).bind fun x => push x (basicRest cs)
  | '\x5c' :: 'U' :: a :: b :: c :: d :: e :: f :: g :: h :: cs =>
    (characterOf? [a, b, c, d, e, f, g, h]).bind fun x => push x (basicRest cs)
  | '\x5c' :: c :: cs => (unescape? c).bind fun x => push x (basicRest cs)
  | c :: cs => if isPrintable c then push c (basicRest cs) else none

/-- The rest of a literal text on one line. -/
def literalRest : List Char → Found
  | [] => none
  | '\x27' :: cs => some ([], cs)
  | c :: cs => if isPrintable c then push c (literalRest cs) else none

/-- The rest of a basic text over several lines. While `skipping`, after a backslash at the end of
a line, blanks and line breaks are dropped. -/
def basicLinesRest : (skipping : Bool) → List Char → Found
  | _, [] => none
  | _, '\x22' :: '\x22' :: '\x22' :: '\x22' :: '\x22' :: cs => some (['\x22', '\x22'], cs)
  | _, '\x22' :: '\x22' :: '\x22' :: '\x22' :: cs => some (['\x22'], cs)
  | _, '\x22' :: '\x22' :: '\x22' :: cs => some ([], cs)
  | _, '\x5c' :: 'u' :: a :: b :: c :: d :: cs =>
    (characterOf? [a, b, c, d]).bind fun x => push x (basicLinesRest false cs)
  | _, '\x5c' :: 'U' :: a :: b :: c :: d :: e :: f :: g :: h :: cs =>
    (characterOf? [a, b, c, d, e, f, g, h]).bind fun x => push x (basicLinesRest false cs)
  | _, '\x5c' :: c :: cs =>
    if endsLine (c :: cs) then basicLinesRest true (c :: cs)
    else (unescape? c).bind fun x => push x (basicLinesRest false cs)
  | skipping, '\r' :: '\n' :: cs =>
    if skipping then basicLinesRest true cs else push '\n' (basicLinesRest false cs)
  | skipping, c :: cs =>
    if skipping && (c = ' ' || c = '\t' || c = '\n') then basicLinesRest true cs
    else if isPrintable c || c = '\n' then push c (basicLinesRest false cs)
    else none

/-- The rest of a literal text over several lines. -/
def literalLinesRest : List Char → Found
  | [] => none
  | '\x27' :: '\x27' :: '\x27' :: '\x27' :: '\x27' :: cs => some (['\x27', '\x27'], cs)
  | '\x27' :: '\x27' :: '\x27' :: '\x27' :: cs => some (['\x27'], cs)
  | '\x27' :: '\x27' :: '\x27' :: cs => some ([], cs)
  | '\r' :: '\n' :: cs => push '\n' (literalLinesRest cs)
  | c :: cs => if isPrintable c || c = '\n' then push c (literalLinesRest cs) else none

/-- What follows a line break, if there is one. -/
def afterLineBreak : List Char → List Char
  | '\n' :: cs => cs
  | '\r' :: '\n' :: cs => cs
  | cs => cs

/-- Takes a text that is written on one line. -/
def lineText : TextReader (List Char) := fun
  | '\x22' :: cs => basicRest cs
  | '\x27' :: cs => literalRest cs
  | _ => none

/-- Takes a text in any form. -/
def text : TextReader (List Char) := fun
  | '\x22' :: '\x22' :: '\x22' :: cs => basicLinesRest false (afterLineBreak cs)
  | '\x27' :: '\x27' :: '\x27' :: cs => literalLinesRest (afterLineBreak cs)
  | cs => lineText cs

end Toml
end TokenGovernance
