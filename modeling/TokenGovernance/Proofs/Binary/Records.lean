/-
# Every record can be read

Each record of the library is spelled as its codec is built. The records with maps or sets in
them, the vote book, the ledgers and the directory, have as many spellings as these have orders;
all others have one.
-/

import TokenGovernance.Binary.Records
import TokenGovernance.Proofs.Binary.Spelling

namespace TokenGovernance
namespace Binary
namespace Spelling

/-- A word has eight bytes. -/
def word : Spelling Codec.word := quantity 8

/-- An amount has sixteen bytes. -/
def amount : Spelling Codec.amount := quantity 16

/-- An instant is spelled as its word. -/
def timestamp : Spelling Codec.timestamp := word.imap _ _ fun _ => rfl

/-- The number of a proposal is spelled as its word. -/
def proposalId : Spelling Codec.proposalId := word.imap _ _ fun _ => rfl

/-- A digest is spelled by its 32 bytes. -/
def digest : Spelling Codec.digest :=
  exact _ 32 (fun d => Nat.le_of_eq d.length_eq.symm) fun d _ rest => by
    have henough : 32 ≤ (d.bytes ++ rest).length := by
      rw [List.length_append, d.length_eq]
      exact Nat.le_add_right _ _
    refine (dif_pos henough).trans (congrArg Except.ok (Prod.ext (Digest.ext ?_) ?_))
    · exact List.take_left' d.length_eq
    · exact List.drop_left' d.length_eq

/-- A row of bytes is spelled as a list of them. -/
def byteString : Spelling Codec.byteString := byte.list (by decide)

/-- A record of parameters is spelled by its six fields. -/
def parameters : Spelling Codec.parameters :=
  (word.pair (word.pair (amount.pair (amount.pair (word.pair word))))).imap _ _ fun _ => rfl

/-- A parameter is spelled by its index among the five. -/
def parameter : Spelling Codec.parameter :=
  enumeration _ (fun v => by cases v <;> decide) (by decide)

/-- An amendment is spelled by its kind, and then the new parameters, or the one parameter and its
new value. -/
def amendment : Spelling Codec.amendment :=
  (parameters.either (parameter.pair amount)).imap _ _ fun a => by cases a <;> rfl

/-- A target is spelled by its kind, and then the account if it is outside. -/
def target : Spelling Codec.target :=
  (unit.either account).imap _ _ fun t => by cases t <;> rfl

/-- The side of a vote is spelled by its index among the three. -/
def support : Spelling Codec.support := enumeration _ (fun v => by cases v <;> decide) (by decide)

/-- A phase is spelled by its index among the eight. -/
def phase : Spelling Codec.phase := enumeration _ (fun v => by cases v <;> decide) (by decide)

/-- A tally is spelled by its three columns. -/
def tally : Spelling Codec.tally := (amount.pair (amount.pair amount)).imap _ _ fun _ => rfl

/-- A vote is spelled by its side, its weight, its reason and its time. -/
def vote : Spelling Codec.vote :=
  (support.pair (amount.pair (text.pair timestamp))).imap _ _ fun _ => rfl

/-- A proposal is spelled by its fifteen fields, the last of which is optional. -/
def proposal : Spelling Codec.proposal :=
  (proposalId.pair (text.pair (text.pair (account.pair (target.pair (byteString.pair
    (amount.pair (digest.pair (tally.pair (timestamp.pair (timestamp.pair (timestamp.pair
      (bool.pair (bool.pair timestamp.option)))))))))))))).imap _ _ fun _ => rfl

/-- A delegation is spelled by the delegate and the time of the change. -/
def delegation : Spelling Codec.delegation := (account.pair timestamp).imap _ _ fun _ => rfl

/-- A history is spelled by its checkpoints, each by its time and its value. -/
def history {α : Type} {c : Codec α} (value : Spelling c) : Spelling (Codec.history c) :=
  (((timestamp.pair value).imap _ _ fun _ => rfl).list (Nat.add_pos_left (by decide) _)).imap _ _
    fun _ => rfl

/-- A ledger is spelled by its histories, in any order of the accounts. -/
def ledger : Spelling Codec.ledger :=
  (account.map (history amount) (by decide)).imap _ _ fun _ => rfl

/-- A directory is spelled by its four tables, each in any order of its accounts. -/
def directory : Spelling Codec.directory :=
  ((account.map delegation (by decide)).pair ((account.map (history account) (by decide)).pair
    ((account.map (account.set (by decide)) (by decide)).pair ledger))).imap _ _ fun _ => rfl

/-- A configuration is spelled by the owner and the parameters. -/
def config : Spelling Codec.config := (account.pair parameters).imap _ _ fun _ => rfl

/-- A vote book is spelled by its proposals in any order, each with its votes in any order. -/
def voteBook : Spelling Codec.voteBook :=
  (proposalId.map (account.map vote (by decide)) (by decide)).imap _ _ fun _ => rfl

end Spelling
end Binary

namespace Amendment

variable {payload : ByteString}

/-- A payload stands for the amendment that is read from it. -/
theorem decode_eq_ok_iff {a : Amendment} :
    decode payload = .ok a ↔ Binary.Codec.amendment.decode payload = .ok a := by
  unfold decode
  rcases Binary.Codec.amendment.decode payload with why | a' <;> simp

/-- A payload that is no amendment is refused as one. -/
theorem decode_eq_error {f : Fault}
    (h : decode payload = .error f) : ∃ why, f = .invalidAction why := by
  unfold decode at h
  split at h
  · cases h
  · cases h
    exact ⟨_, rfl⟩

end Amendment
end TokenGovernance
