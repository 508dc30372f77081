/-
# TOML documents

A document is a row of lines: entries `key = value`, headers `[key]` and `[[key]]`, comments, and
empty lines. Entries belong to the header above them. Lists and inline tables are nested at most
79 deep, and a dotted key has at most 79 parts.
-/

import TokenGovernance.Toml.Scalar

namespace TokenGovernance
namespace Toml

/-- How deep values are nested, and how many parts a key has, at most. -/
def depthLimit : Nat := 79

/-- A key with its path, and its value. -/
structure Entry where
  path : List String
  key : String
  value : Value

/-- A header with its path. -/
structure Header where
  path : List String
  key : String
  /-- Whether the header adds a table to a row of tables. -/
  isRow : Bool

/-- What stands on a line. -/
inductive Line where
  | empty
  | entry (e : Entry)
  | header (h : Header)

/-! ## Reading -/

/-- Drops blanks. -/
def blanks : TextReader Unit := TextReader.dropWhile fun c => c = ' ' || c = '\t'

/-- Takes a line break. -/
def lineBreak : TextReader Unit := TextReader.literal ['\n'] <|> TextReader.literal ['\r', '\n']

/-- Takes a comment. -/
def comment : TextReader Unit := do
  TextReader.char '#'
  TextReader.dropWhile isPrintable

/-- Drops blanks, comments and line breaks. -/
def gap : TextReader Unit := do
  blanks
  let _ ← TextReader.many do
    let _ ← TextReader.optional comment
    lineBreak
    blanks

/-- Whether a character may stand in a key without quotes. -/
def isBareKeyChar (c : Char) : Bool := c.isAlphanum || c = '_' || c = '-'

/-- Takes one part of a key. -/
def keyPart : TextReader String := do
  match ← TextReader.peek with
  | some '\x22' | some '\x27' => String.ofList <$> lineText
  | _ =>
    let cs ← TextReader.takeWhile isBareKeyChar
    if cs.isEmpty then TextReader.nothing else return String.ofList cs

/-- Takes a key: its path and its last part. -/
def key : TextReader (List String × String) := do
  let parts ← TextReader.separated (TextReader.char '.') do
    blanks
    let part ← keyPart
    blanks
    return part
  match parts.getLast? with
  | some last =>
    if parts.length ≤ depthLimit then return (parts.dropLast, last) else TextReader.nothing
  | none => TextReader.nothing

/-- Takes an entry. -/
def entry (value : TextReader Value) : TextReader Entry := do
  let (path, key) ← key
  TextReader.char '='
  blanks
  return { path, key, value := ← value }

/-- Takes a list. -/
def array (value : TextReader Value) : TextReader (List Value) := do
  TextReader.char '['
  let items ← TextReader.optional do
    let items ← TextReader.separated (TextReader.char ',') do
      gap
      let v ← value
      gap
      return v
    let _ ← TextReader.optional (TextReader.char ',')
    return items
  gap
  TextReader.char ']'
  return items.getD []

/-- Adds entries to a table one after the other. -/
def Table.addAll (entries : List Entry) (t : Table) : Option Table :=
  entries.foldlM (fun t e => t.addDotted e.key e.value e.path true) t

/-- Takes an inline table. -/
def inlineTable (value : TextReader Value) : TextReader Table := do
  TextReader.char '\x7b'
  let entries ← TextReader.optional (TextReader.separated (TextReader.char ',') do
    let e ← entry value
    blanks
    return e)
  blanks
  TextReader.char '\x7d'
  match Table.addAll (entries.getD []) [] with
  | some t => return t
  | none => TextReader.nothing

/-- Takes a text or a scalar. -/
def simple : TextReader Value := do
  match ← TextReader.peek with
  | some '\x22' | some '\x27' => (.text ∘ String.ofList) <$> text
  | _ => scalar

/-- Takes a list or an inline table. -/
def compound (value : TextReader Value) : TextReader Value := do
  match ← TextReader.peek with
  | some '[' => .array <$> array value
  | _ => .table .inline <$> inlineTable value

/-- Takes a value that is nested at most `depth` deep. -/
def value : (depth : Nat) → TextReader Value
  | 0 => simple
  | depth + 1 => simple <|> compound (value depth)

/-- Takes what stands in brackets. -/
def header : TextReader Header := do
  TextReader.char '['
  let isRow := (← TextReader.optional (TextReader.char '[')).isSome
  let (path, key) ← key
  TextReader.char ']'
  if isRow then
    TextReader.char ']'
  return { path, key, isRow }

/-- Takes a line, without its line break. -/
def line : TextReader Line := do
  blanks
  let content ←
    match ← TextReader.peek with
    | some '[' => .header <$> header
    | none | some '#' | some '\n' | some '\r' => pure .empty
    | _ => .entry <$> entry (value depthLimit)
  blanks
  let _ ← TextReader.optional comment
  return content

/-- Takes the lines of a document. A byte order mark may stand in front. -/
def lines : TextReader (List Line) := do
  let _ ← TextReader.optional (TextReader.char '\ufeff')
  TextReader.separated lineBreak line

/-! ## Putting tables together -/

/-- The entries above the first header, and the entries below each. -/
def sections : List Line → List Entry × List (Header × List Entry)
  | [] => ([], [])
  | .empty :: rest => sections rest
  | .entry e :: rest =>
    let (entries, others) := sections rest
    (e :: entries, others)
  | .header h :: rest =>
    let (entries, others) := sections rest
    ([], (h, entries) :: others)

/-- Adds a header and its entries to a document. -/
def addSection (t : Table) (h : Header) (entries : List Entry) : Option Table :=
  t.below (if h.isRow then Table.addRow (Table.addAll entries) h.key
    else Table.addTable (Table.addAll entries) h.key) h.path

/-- The table that a document stands for. -/
def parse? (s : String) : Option Table := do
  let (entries, others) := sections (← lines.readAll? s)
  others.foldlM (fun t (h, entries) => addSection t h entries) (← Table.addAll entries [])

end Toml
end TokenGovernance
