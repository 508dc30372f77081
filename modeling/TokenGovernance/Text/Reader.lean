/-
# Reading texts

A reader takes a value from the front of a row of characters and leaves the rest, or finds none.
Readers are put together by running one after the other, and by trying a second one where the
first finds nothing.
-/

namespace TokenGovernance

/-- Takes a value from the front of a row of characters. -/
abbrev TextReader (α : Type) := StateT (List Char) Option α

namespace TextReader

variable {α : Type}

/-- The value that a whole text stands for. -/
def readAll? (r : TextReader α) (s : String) : Option α :=
  match r s.toList with
  | some (a, []) => some a
  | _ => none

/-- Finds nothing. -/
def nothing : TextReader α := fun _ => none

/-- The next character, which stays where it is. -/
def peek : TextReader (Option Char) := fun cs => some (cs.head?, cs)

/-- Takes one character that satisfies `p`. -/
def satisfying (p : Char → Bool) : TextReader Char := fun
  | c :: cs => if p c then some (c, cs) else none
  | [] => none

/-- Takes this character. -/
def char (c : Char) : TextReader Unit := fun
  | d :: cs => if d = c then some ((), cs) else none
  | [] => none

/-- Takes these characters. -/
def literal : List Char → TextReader Unit
  | [] => return ()
  | c :: cs => do
    char c
    literal cs

/-- Takes all characters up to the first that does not satisfy `p`. -/
def takeWhile (p : Char → Bool) : TextReader (List Char) := fun cs =>
  some (cs.takeWhile p, cs.dropWhile p)

/-- Drops all characters up to the first that does not satisfy `p`. -/
def dropWhile (p : Char → Bool) : TextReader Unit := fun cs => some ((), cs.dropWhile p)

/-- Takes a value if there is one. -/
def optional (r : TextReader α) : TextReader (Option α) := (some <$> r) <|> pure none

/-- Takes values as long as there are any, at most `fuel` of them. -/
def manyUpTo (r : TextReader α) : (fuel : Nat) → TextReader (List α)
  | 0 => return []
  | fuel + 1 => fun cs =>
    match r cs with
    | none => some ([], cs)
    | some (a, rest) => ((a :: ·) <$> manyUpTo r fuel) rest

/-- Takes values as long as there are any. Each is taken to use up at least one character. -/
def many (r : TextReader α) : TextReader (List α) := fun cs => manyUpTo r cs.length cs

/-- Takes one value, and more as long as a separator is in front of the next. -/
def separated (separator : TextReader Unit) (r : TextReader α) : TextReader (List α) := do
  let first ← r
  let rest ← many do
    separator
    r
  return first :: rest

end TextReader
end TokenGovernance
