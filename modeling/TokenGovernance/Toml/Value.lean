/-
# TOML values and tables

A table is a row of keys and values. Tables come about in four ways, and that decides what may be
added to them later:

| kind | written | more keys may be added by |
| --- | --- | --- |
| `inline` | `k = { … }` | nothing |
| `header` | `[k]` | headers below it |
| `implied` | `[k.x]`, for `k` | headers below it, and one header of its own |
| `dotted` | `k.x = …`, for `k` | keys of the same table, and headers below it |

A row of tables `[[k]]` grows by further headers, and headers below it go to its last table.
-/

namespace TokenGovernance
namespace Toml

/-- How a table came about. -/
inductive TableKind where
  | inline
  | header
  | implied
  | dotted
deriving DecidableEq

/-- A TOML value. -/
inductive Value where
  | text (s : String)
  | integer (n : Int)
  /-- A number with a fraction or an exponent, an infinity, or no number, as it is written. -/
  | float (written : List Char)
  | boolean (b : Bool)
  /-- A date, a time of day or both, as it is written. -/
  | moment (written : List Char)
  | array (items : List Value)
  | table (kind : TableKind) (entries : List (String × Value))
  | tables (rows : List (List (String × Value)))

/-- A row of keys and values. -/
abbrev Table := List (String × Value)

namespace Table

/-- The value under a key. -/
def get? (t : Table) (key : String) : Option Value := List.lookup key t

/-- The table with a value put in the place of the one under the key, or at the end. -/
def put (key : String) (v : Value) : Table → Table
  | [] => [(key, v)]
  | (k, w) :: rest => if k = key then (k, v) :: rest else (k, w) :: put key v rest

/-- Adds a new key below the tables that a dotted key names, which are made where they are
missing. Tables that were written by a header take no keys in this way, nor do inline tables. The
key goes into a table that a dotted key made, or into the table itself where `here` holds. -/
def addDotted (key : String) (v : Value) : (path : List String) → (here : Bool) → Table →
    Option Table
  | [], here, t => if here && (t.get? key).isNone then some (t ++ [(key, v)]) else none
  | k :: path, _, t =>
    match t.get? k with
    | none => do return t ++ [(k, .table .dotted (← addDotted key v path true []))]
    | some (.table .dotted inner) => do
      return t.put k (.table .dotted (← addDotted key v path true inner))
    | some (.table .implied inner) => do
      return t.put k (.table .implied (← addDotted key v path false inner))
    | some (.tables rows) => do
      let last ← rows.getLast?
      return t.put k (.tables (rows.dropLast ++ [← addDotted key v path false last]))
    | some _ => none

/-- Changes the table that a header's path leads to; tables on the way are implied where they are
missing. -/
def below (change : Table → Option Table) : (path : List String) → Table → Option Table
  | [], t => change t
  | k :: path, t =>
    match t.get? k with
    | none => do return t ++ [(k, .table .implied (← below change path []))]
    | some (.table .inline _) => none
    | some (.table kind inner) => do return t.put k (.table kind (← below change path inner))
    | some (.tables rows) => do
      let last ← rows.getLast?
      return t.put k (.tables (rows.dropLast ++ [← below change path last]))
    | some _ => none

/-- Puts a table with a header of its own under a key. A table that was implied is continued, any
other value may not be there. -/
def addTable (fill : Table → Option Table) (key : String) (t : Table) : Option Table :=
  match t.get? key with
  | none => do return t.put key (.table .header (← fill []))
  | some (.table .implied inner) => do return t.put key (.table .header (← fill inner))
  | some _ => none

/-- Puts a further table into a row of tables under a key. -/
def addRow (fill : Table → Option Table) (key : String) (t : Table) : Option Table :=
  match t.get? key with
  | none => do return t.put key (.tables [← fill []])
  | some (.tables rows) => do return t.put key (.tables (rows ++ [← fill []]))
  | some _ => none

end Table
end Toml
end TokenGovernance
