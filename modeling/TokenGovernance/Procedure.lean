/-
# Procedures

A procedure reads and writes a state, step by step, and may be refused on the way. A refusal undoes
nothing: what was written before it stays written. That a procedure leaves no trace when it is
refused is therefore a fact about the order of its steps, not about this type.
-/

import TokenGovernance.Fault

namespace TokenGovernance

/-- A row of steps that read and write a state and may be refused. -/
abbrev Procedure (σ α : Type) := ExceptT Fault (StateM σ) α

namespace Procedure

variable {σ τ α : Type}

/-- The answer of a procedure and the state it leaves. -/
def perform (p : Procedure σ α) (s : σ) : Except Fault α × σ := (ExceptT.run p).run s

/-- A procedure on a part of the state. -/
def within (part : σ → τ) (put : τ → σ → σ) (p : Procedure τ α) : Procedure σ α :=
  ExceptT.mk fun s =>
    let (answer, t) := p.perform (part s)
    (answer, put t s)

end Procedure
end TokenGovernance
