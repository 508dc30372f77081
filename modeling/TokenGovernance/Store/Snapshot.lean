/-
# Snapshots

The state of an engine is stored as one record for each proposal and one snapshot of all the rest.
Loading reads the snapshot, and then the records of the proposals that it counts, from the first
on; the first thing that is missing, unreadable or misfiled ends it. Records beyond the count are
not looked at.
-/

import TokenGovernance.Engine.State
import TokenGovernance.Store.Basic

namespace TokenGovernance

/-- All of a state but its proposals. -/
def Binary.Codec.snapshot : Binary.Codec State :=
  (bool.pair (parameters.pair (word.pair (voteBook.pair (ledger.pair directory))))).imap
    (fun (initialized, parameters, proposalCount, votes, held, delegation) =>
      { initialized, parameters, proposalCount, votes, held, delegation })
    (fun s => (s.initialized, s.parameters, s.proposalCount, s.votes, s.held, s.delegation))

namespace State

/-- The name under which the snapshot is stored. -/
def snapshotName : String := "governor_state"

/-- Stores the state: the records of the proposals by number, then the snapshot. -/
def save (s : State) : Procedure Store Unit := do
  s.proposals.toList.forM fun (id, p) => Store.putProposal id (Binary.Codec.proposal.write p)
  Store.putMetadata snapshotName (Binary.Codec.snapshot.write s)

/-- The proposal recorded under a number. -/
def loadProposal (store : Store) (id : ProposalId) : Except Fault Proposal := do
  let bytes ← store.getProposal id
  let p ← Fault.ofReading (Binary.Codec.proposal.decode bytes)
  if p.id = id then return p else throw (.store (.misfiled id p.id))

/-- The state with the recorded proposals from number `n + 1` to the last one that it counts,
`remaining` of them. -/
def loadProposals (store : Store) (s : State) (n : Nat) :
    (remaining : Nat) → Except Fault State
  | 0 => .ok s
  | remaining + 1 => do
    let id : ProposalId := ⟨.clamp (n + 1)⟩
    let p ← loadProposal store id
    loadProposals store { s with proposals := s.proposals.insert id p } (n + 1) remaining

/-- The state that a store holds. -/
def load (store : Store) : Except Fault State := do
  match ← store.getMetadata snapshotName with
  | none => throw (.store (.notFound (.metadata snapshotName)))
  | some bytes =>
    let s ← Fault.ofReading (Binary.Codec.snapshot.decode bytes)
    loadProposals store s 0 s.proposalCount.val

end State
end TokenGovernance
