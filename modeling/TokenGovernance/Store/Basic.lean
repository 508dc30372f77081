/-
# Stores

A store keeps the record of each proposal and named pieces of metadata, all as bytes. A write
replaces what was there. A store can be told that one of its operations fails from now on; the
others go on working, and what was written stays.
-/

import TokenGovernance.Procedure

namespace TokenGovernance

/-- What can be asked of a store. -/
inductive Store.Operation where
  | putProposal
  | getProposal
  | putMetadata
  | getMetadata
deriving DecidableEq

/-- Proposal records and metadata. -/
structure Store where
  proposals : Std.ExtTreeMap ProposalId ByteString := ∅
  metadata : Std.ExtTreeMap String ByteString := ∅
  /-- The operation that fails, and why, if one does. -/
  failure : Option (Store.Operation × String) := none

namespace Store

/-- Refuses an operation that fails. -/
def check (s : Store) (operation : Operation) : Except Fault Unit :=
  match s.failure with
  | some (failing, reason) =>
    if failing = operation then .error (.store (.backend reason)) else .ok ()
  | none => .ok ()

/-- Stores the record of a proposal. -/
def putProposal (id : ProposalId) (bytes : ByteString) : Procedure Store Unit := do
  (← get).check .putProposal
  modify fun s => { s with proposals := s.proposals.insert id bytes }

/-- The record of a proposal. -/
def getProposal (s : Store) (id : ProposalId) : Except Fault ByteString := do
  s.check .getProposal
  match s.proposals[id]? with
  | some bytes => return bytes
  | none => throw (.store (.notFound (.proposal id)))

/-- Stores a piece of metadata. -/
def putMetadata (name : String) (bytes : ByteString) : Procedure Store Unit := do
  (← get).check .putMetadata
  modify fun s => { s with metadata := s.metadata.insert name bytes }

/-- A piece of metadata, if it was ever stored. -/
def getMetadata (s : Store) (name : String) : Except Fault (Option ByteString) := do
  s.check .getMetadata
  return s.metadata[name]?

/-- Loses the record of a proposal. -/
def removeProposal (s : Store) (id : ProposalId) : Store :=
  { s with proposals := s.proposals.erase id }

end Store
end TokenGovernance
