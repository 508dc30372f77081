/-
# How a vote comes out

Once the window has passed, the tally decides whether the proposal is defeated, by two rules that
do not look at the same sides:

| lost for want of | rule | votes in favor | votes against | abstentions |
| --- | --- | --- | --- | --- |
| participation | the three sides together are below the quorum | help | help | help |
| a majority | no more votes in favor than against | help | harm | |

The participation is counted in an amount, which holds the exact sum or the largest amount there is
(`Tally.total_val`). Since the quorum is an amount as well, that never decides
(`Tally.total_lt_iff`). So one more vote in favor or in abstention loses nothing that was not lost,
and one more vote against wins no majority (`Proposal.outcome`).
-/

import TokenGovernance.Proofs.Proposal

namespace TokenGovernance

namespace Tally

variable {t t' : Tally} {support : Support} {weight quorum : Amount}

/-- The weight of all votes, however large. -/
def sum (t : Tally) : Nat := t.inFavor.val + t.against.val + t.abstain.val

/-- What is lost is lost for want of participation or for want of a majority. -/
def Lost (t : Tally) (quorum : Amount) : Prop := t.sum < quorum.val ∨ t.inFavor ≤ t.against

/-- The participation is exact up to the largest amount. -/
theorem total_val (t : Tally) : t.total.val = min t.sum (1 <<< 128 - 1) := by
  simp only [total, sum, Quantity.saturatingAdd_val]
  omega

/-- **The quorum is missed exactly.** No quorum is larger than the largest amount. -/
theorem total_lt_iff : t.total < quorum ↔ t.sum < quorum.val := by
  have hquorum := quorum.val_lt
  rw [Quantity.lt_def, total_val]
  omega

/-- A vote more is counted in the sum. -/
theorem sum_of_cast (h : t.cast support weight = .ok t') : t'.sum = t.sum + weight.val := by
  have hagainst := column_of_cast h .against
  have hinFavor := column_of_cast h .inFavor
  have habstain := column_of_cast h .abstain
  simp only [column] at hagainst hinFavor habstain
  unfold sum
  cases support <;> simp at hagainst hinFavor habstain <;> omega

/-- **A vote that is not against loses nothing.** -/
theorem Lost.of_cast (h : t.cast support weight = .ok t') (hsupport : support ≠ .against)
    (lost : t'.Lost quorum) : t.Lost quorum := by
  have hsum := sum_of_cast h
  have hagainst : t'.against.val = t.against.val := by
    rw [show t'.against.val = _ from column_of_cast h .against, if_neg hsupport]
    rfl
  have hinFavor : t.inFavor.val ≤ t'.inFavor.val := by
    rw [show t'.inFavor.val = _ from column_of_cast h .inFavor]
    exact Nat.le_add_right _ _
  rcases lost with hshort | hminority
  · exact .inl (by omega)
  · rw [Quantity.le_def] at hminority
    exact .inr (Quantity.le_def.2 (by omega))

/-- **A vote against wins no majority.** -/
theorem minority_of_cast (h : t.cast .against weight = .ok t') (minority : t.inFavor ≤ t.against) :
    t'.inFavor ≤ t'.against := by
  have hinFavor : t'.inFavor.val = t.inFavor.val := column_of_cast h .inFavor
  have hagainst : t'.against.val = t.against.val + weight.val := column_of_cast h .against
  rw [Quantity.le_def] at minority ⊢
  omega

end Tally

namespace Proposal

variable {p : Proposal} {now : Timestamp} {parameters : Parameters}

/-- A proposal is defeated when its window has passed and its vote is lost. -/
theorem phase_eq_defeated_iff_lost : p.phase now parameters = .defeated ↔
    p.canceled = false ∧ p.executed = false ∧ p.startTime ≤ now ∧ p.endTime < now ∧
      p.tally.Lost parameters.quorumThreshold := by
  rw [phase_eq_defeated_iff, Tally.total_lt_iff]
  rfl

/-- **The outcome is exact and monotone.** After the window a proposal that was neither withdrawn
nor carried out is defeated exactly if the sum of all votes is below the quorum or there are no more
votes in favor than against, from the first instant of the window on. The sum is meant without
bound, although the participation stops at the largest amount. One more vote in favor or in
abstention never leads to a defeat, and one more vote against never leads a proposal without a
majority to any of the phases that follow a vote that is won. -/
theorem outcome (p : Proposal) (now : Timestamp) (parameters : Parameters) :
    p.tally.total.val =
      min (p.tally.inFavor.val + p.tally.against.val + p.tally.abstain.val) (1 <<< 128 - 1) ∧
    (p.canceled = false → p.executed = false → p.endTime < now →
      (p.phase now parameters = .defeated ↔ p.startTime ≤ now ∧
        (p.tally.inFavor.val + p.tally.against.val + p.tally.abstain.val <
            parameters.quorumThreshold.val ∨
          p.tally.inFavor.val ≤ p.tally.against.val))) ∧
    ∀ support weight tally, p.tally.cast support weight = .ok tally →
      (support ≠ .against → p.phase now parameters ≠ .defeated →
        { p with tally }.phase now parameters ≠ .defeated) ∧
      (support = .against → p.tally.inFavor ≤ p.tally.against →
        ∀ won ∈ [Phase.succeeded, .queued, .expired],
          { p with tally }.phase now parameters ≠ won) := by
  refine ⟨p.tally.total_val, fun hcanceled hexecuted hclosed => ?_,
    fun support weight tally hcast => ⟨fun hsupport hsafe hdefeated => ?_, ?_⟩⟩
  · rw [phase_eq_defeated_iff_lost]
    exact ⟨fun ⟨_, _, hstarted, _, hlost⟩ => ⟨hstarted, hlost⟩,
      fun ⟨hstarted, hlost⟩ => ⟨hcanceled, hexecuted, hstarted, hclosed, hlost⟩⟩
  · obtain ⟨hcanceled, hexecuted, hstarted, hclosed, hlost⟩ :=
      phase_eq_defeated_iff_lost.1 hdefeated
    exact hsafe (phase_eq_defeated_iff_lost.2
      ⟨hcanceled, hexecuted, hstarted, hclosed, hlost.of_cast hcast hsupport⟩)
  · rintro rfl hminority won hwon hphase
    have hpassed : { p with tally }.Passed now parameters := passed_of_phase (by
      rw [hphase]
      simpa using hwon)
    exact Quantity.not_le.2 hpassed.majority (Tally.minority_of_cast hcast hminority)

/-- Two sides that together are beyond the largest amount meet a quorum of the largest amount, and
with seven abstentions more they still do; and a tie stays without a majority. -/
theorem outcome_of_saturation :
    let alice : Account := ⟨"civ_alice", by decide⟩
    let now : Timestamp := ⟨⟨21, by decide⟩⟩
    let parameters : Parameters := { quorumThreshold := .greatest }
    let draft : Draft := ⟨"raise", "", .external alice, [1], .zero⟩
    let p : Proposal := { draft with
      id := .first
      proposer := alice
      contentHash := draft.contentHash
      tally := { inFavor := .greatest, against := ⟨1 <<< 128 - 2, by decide⟩ }
      createdAt := ⟨⟨1, by decide⟩⟩
      startTime := ⟨⟨10, by decide⟩⟩
      endTime := ⟨⟨20, by decide⟩⟩
      executed := false
      canceled := false
      armedAt := none }
    let tied : Proposal :=
      { p with tally := { inFavor := ⟨3, by decide⟩, against := ⟨3, by decide⟩ } }
    p.tally.total = .greatest ∧ p.phase now parameters ≠ .defeated ∧
      (∃ tally, p.tally.cast .abstain ⟨7, by decide⟩ = .ok tally ∧
        { p with tally }.phase now parameters ≠ .defeated) ∧
      ∃ tally, tied.tally.cast .against ⟨1, by decide⟩ = .ok tally ∧
        { tied with tally }.phase now {} ≠ .succeeded := by
  intro alice now parameters draft p tied
  obtain ⟨htotal, hdefeated, hcasts⟩ := outcome p now parameters
  have hsafe : p.phase now parameters ≠ .defeated := by
    rw [ne_eq, hdefeated rfl rfl (by decide)]
    decide
  have habstain : p.tally.cast .abstain ⟨7, by decide⟩ =
      .ok { p.tally with abstain := ⟨7, by decide⟩ } := rfl
  have hagainst : tied.tally.cast .against ⟨1, by decide⟩ =
      .ok { tied.tally with against := ⟨4, by decide⟩ } := rfl
  have hgreatest : p.tally.total.val = (Quantity.greatest : Amount).val := by
    rw [htotal]
    decide
  refine ⟨Quantity.ext hgreatest, hsafe, ⟨_, habstain, (hcasts _ _ _ habstain).1 nofun hsafe⟩,
    ⟨_, hagainst, ?_⟩⟩
  obtain ⟨-, -, htied⟩ := outcome tied now {}
  exact (htied _ _ _ hagainst).2 rfl (by decide) _ (by simp)

/-- **Before the first instant of its window a proposal is pending, even after the last one.** Where
a record has these in the wrong order, a proposal without a majority is not defeated yet. -/
theorem pending_in_inverted_window :
    let alice : Account := ⟨"civ_alice", by decide⟩
    let now : Timestamp := ⟨⟨15, by decide⟩⟩
    let draft : Draft := ⟨"raise", "", .external alice, [1], .zero⟩
    let p : Proposal := { draft with
      id := .first
      proposer := alice
      contentHash := draft.contentHash
      tally := {}
      createdAt := ⟨⟨1, by decide⟩⟩
      startTime := ⟨⟨20, by decide⟩⟩
      endTime := ⟨⟨10, by decide⟩⟩
      executed := false
      canceled := false
      armedAt := none }
    p.canceled = false ∧ p.executed = false ∧ p.endTime < now ∧
      p.tally.inFavor ≤ p.tally.against ∧ p.phase now {} = .pending := by
  decide

end Proposal
end TokenGovernance
