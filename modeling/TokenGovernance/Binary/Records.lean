/-
# The binary format: records

How the values of the library are laid out, field by field. The text of a configuration and the
bytes of a record share their order, and so do the sides of a vote, the phases and the parameters
and the indices they are written with.
-/

import TokenGovernance.Amendment
import TokenGovernance.Binary.Codec
import TokenGovernance.Config.Basic
import TokenGovernance.Delegation
import TokenGovernance.VoteBook

namespace TokenGovernance
namespace Binary
namespace Codec

/-- An amount, in sixteen bytes. -/
def amount : Codec Amount := quantity 16

/-- An instant, in eight bytes. -/
def timestamp : Codec Timestamp := word.imap Timestamp.mk Timestamp.toQuantity

/-- The number of a proposal, in eight bytes. -/
def proposalId : Codec ProposalId := word.imap ProposalId.mk ProposalId.toQuantity

/-- A digest, as its 32 bytes. -/
def digest : Codec Digest where
  write d := d.bytes
  read bytes :=
    if h : 32 ≤ bytes.length then
      .ok (⟨bytes.take 32, List.length_take_of_le h⟩, bytes.drop 32)
    else .error .endOfInput

/-- A row of bytes, counted. -/
def byteString : Codec ByteString := list byte

/-- The parameters. -/
def parameters : Codec Parameters :=
  (word.pair (word.pair (amount.pair (amount.pair (word.pair word))))).imap
    (fun (delay, period, proposal, quorum, execution, version) =>
      ⟨delay, period, proposal, quorum, execution, version⟩)
    (fun p => (p.votingDelay, p.votingPeriod, p.proposalThreshold, p.quorumThreshold,
      p.executionDelay, p.version))

/-- One of the governable values. -/
def parameter : Codec Parameter := enumeration Parameter.all

/-- An amendment. -/
def amendment : Codec Amendment :=
  (parameters.either (parameter.pair amount)).imap
    (fun
      | .inl record => .replace record
      | .inr (name, value) => .set name value)
    (fun
      | .replace record => .inl record
      | .set name value => .inr (name, value))

/-- What a proposal acts on. -/
def target : Codec Target :=
  (unit.either account).imap
    (fun
      | .inl _ => .parameterStore
      | .inr a => .external a)
    (fun
      | .parameterStore => .inl ()
      | .external a => .inr a)

/-- The side of a vote. -/
def support : Codec Support := enumeration Support.all

/-- The phase of a proposal. -/
def phase : Codec Phase := enumeration Phase.all

/-- A tally. -/
def tally : Codec Tally :=
  (amount.pair (amount.pair amount)).imap
    (fun (inFavor, against, abstain) => ⟨inFavor, against, abstain⟩)
    (fun t => (t.inFavor, t.against, t.abstain))

/-- A vote. -/
def vote : Codec Vote :=
  (support.pair (amount.pair (text.pair timestamp))).imap
    (fun (support, weight, reason, castAt) => ⟨support, weight, reason, castAt⟩)
    (fun v => (v.support, v.weight, v.reason, v.castAt))

/-- A proposal. -/
def proposal : Codec Proposal :=
  (proposalId.pair (text.pair (text.pair (account.pair (target.pair (byteString.pair
    (amount.pair (digest.pair (tally.pair (timestamp.pair (timestamp.pair (timestamp.pair
      (bool.pair (bool.pair (option timestamp))))))))))))))).imap
    (fun (id, title, description, proposer, target, payload, value, contentHash, tally, createdAt,
        startTime, endTime, executed, canceled, armedAt) =>
      { id, title, description, proposer, target, payload, value, contentHash, tally, createdAt,
        startTime, endTime, executed, canceled, armedAt })
    (fun p => (p.id, p.title, p.description, p.proposer, p.target, p.payload, p.value,
      p.contentHash, p.tally, p.createdAt, p.startTime, p.endTime, p.executed, p.canceled,
      p.armedAt))

/-- The current delegation of an account. -/
def delegation : Codec Delegation :=
  (account.pair timestamp).imap
    (fun (delegate, changedAt) => ⟨delegate, changedAt⟩)
    (fun r => (r.delegate, r.changedAt))

/-- A history. -/
def history {α : Type} (value : Codec α) : Codec (History α) :=
  (list ((timestamp.pair value).imap
    (fun (time, value) => Checkpoint.mk time value)
    (fun c => (c.time, c.value)))).imap History.mk History.checkpoints

/-- A ledger. -/
def ledger : Codec Ledger := (map account (history amount)).imap Ledger.mk Ledger.series

/-- A delegation directory. -/
def directory : Codec Directory :=
  ((map account delegation).pair ((map account (history account)).pair
    ((map account (set account)).pair ledger))).imap
    (fun (records, histories, delegators, power) => ⟨records, histories, delegators, power⟩)
    (fun d => (d.records, d.histories, d.delegators, d.power))

/-- A vote book. -/
def voteBook : Codec VoteBook :=
  (map proposalId (map account vote)).imap VoteBook.mk VoteBook.votes

/-- A configuration. -/
def config : Codec Config :=
  (account.pair parameters).imap
    (fun (owner, parameters) => ⟨owner, parameters⟩)
    (fun c => (c.owner, c.parameters))

end Codec
end Binary

/-- The amendment that the payload of a proposal stands for. -/
def Amendment.decode (payload : ByteString) : Except Fault Amendment :=
  match Binary.Codec.amendment.decode payload with
  | .ok a => .ok a
  | .error why => .error (.invalidAction (.badAmendment why))

end TokenGovernance
