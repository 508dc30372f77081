/-
# Configurations as texts

A configuration is written as a TOML document: the owner, and then the parameters as a table.

    owner = "civ_foundation"

    [params]
    voting_delay_secs = 86400
    quorum_threshold = "9223372036854775808"

TOML numbers have 63 bits and a sign, so a longer length of time cannot be written, and a larger
amount is written as a text. An owner with more quotes in a row than can be counted is not written
either; that is looked at last. Reading takes any document with an owner, ignores keys it does not
know, and refuses parameters that are unsound. The parameters may also be given as a list in their
order; what follows the sixth value is ignored. A date in their place is a table without any key
that is known.
-/

import TokenGovernance.Config.Basic
import TokenGovernance.Fault
import TokenGovernance.Parameters.Fields
import TokenGovernance.Toml.Document

namespace TokenGovernance
namespace Config

/-- The key of the owner. -/
def ownerKey : String := "owner"

/-- The key of the parameters. -/
def parametersKey : String := "params"

/-! ## Writing -/

/-- A whole number, or the refusal of one that is too large. -/
def writeWord (q : Quantity 64) : Except Fault String :=
  if q.val ≤ Amount.greatestNumber then .ok q.val.repr else .error (.encoding (.outOfRange q.val))

/-- An amount, as a number or as a text. -/
def writeAmount (a : Amount) : Except Fault String :=
  .ok (if a.isNumber then a.val.repr else String.ofList (Toml.quote a.val.repr.toList))

/-- A line of a document. -/
def writeLine (key value : String) : String := key ++ " = " ++ value ++ "\n"

/-- The lines of the parameters. -/
def writeParameters (p : Parameters) : Except Fault (List String) :=
  (p.fields writeWord writeAmount).mapM fun (name, value) => writeLine name <$> value

/-- Why a configuration is not written. -/
inductive WriteFault where
  /-- A number has no place in the format. -/
  | refused (why : Fault)
  /-- The count of the quotes in a text overflows, which no refusal foresees. -/
  | countOverflow
deriving DecidableEq

/-- The document of a configuration. -/
def write (c : Config) : Except WriteFault String :=
  match writeParameters c.parameters with
  | .error why => .error (.refused why)
  | .ok lines =>
    match Toml.quote? c.owner.name.toList with
    | none => .error .countOverflow
    | some owner =>
      .ok (writeLine ownerKey (String.ofList owner) ++ "\n[" ++ parametersKey ++ "]\n" ++
        String.join lines)

/-! ## Reading -/

/-- A whole number. -/
def word? : Toml.Value → Option (Quantity 64)
  | .integer n => if 0 ≤ n then Quantity.ofNat? n.toNat else none
  | _ => none

/-- An amount, as a number or as a text. -/
def amount? : Toml.Value → Option Amount
  | .integer n => if 0 ≤ n then Quantity.ofNat? n.toNat else none
  | .text s => Amount.ofText? s
  | _ => none

/-- Parameters, as a table or as a list. -/
def parameters? : Toml.Value → Option Parameters
  | .table _ entries =>
    Parameters.ofFields? word? amount? fun _ name => Toml.Table.get? entries name
  | .array items => Parameters.ofFields? word? amount? fun place _ => items[place]?
  | .moment _ => some {}
  | _ => none

/-- The configuration that a table stands for. -/
def ofTable? (t : Toml.Table) : Option Config := do
  let owner ←
    match t.get? ownerKey with
    | some (.text s) => Account.ofName? s
    | _ => none
  let parameters ←
    match t.get? parametersKey with
    | some v => parameters? v
    | none => some {}
  return { owner, parameters }

/-- The configuration that a document stands for, if its parameters are sound. -/
def read (s : String) : Except Fault Config :=
  match (Toml.parse? s).bind ofTable? with
  | none => .error (.invalidParameters .unreadable)
  | some c => do
    c.parameters.validate
    return c

/-- The configuration in a file, which may not exist. -/
def readBytes (bytes : Option ByteString) : Except Fault Config :=
  match bytes.map Utf8.decode with
  | some (.ok s) => read s
  | _ => .error (.invalidParameters .unreadable)

end Config
end TokenGovernance
