/-
# The search by halves

A history that was only written to is in order, but one that was read from a store may hold its
checkpoints in any order, and the search by halves (`History.rightmost?`) does not look whether it
does. What it answers is this (`History.search_exact`):

| row | answer |
| --- | --- |
| any | a place at or before the instant, and the next checkpoint, if there is one, is later |
| any | no place, and the first checkpoint, if there is one, is later |
| times never decrease | the greatest place at or before the instant, or none if there is none |

The places of that search carry the proof that they lie in the row. So the same search is given here
on bare numbers (`History.Search.step`), where a place that is read may turn out not to be there. It
never does, and the answer is the same after as many steps as the length of the row has binary
digits, and one more to see that nothing is left (`History.Search.after_eq_ended`).

In a row that is out of order nothing is known of the places that were passed over. What a step
keeps speaks of two checkpoints alone, those that border on what is left (`Search.Bordered`), and
where times never decrease these two are enough to make the answer exact. What is used elsewhere is
that then the last checkpoint at or before the instant is found (`History.getLast?_filter_time`).
-/

import Mathlib.Data.Nat.PSub
import Mathlib.Logic.Function.Iterate
import Mathlib.Order.Bounds.Basic
import Mathlib.Order.Fin.Basic
import TokenGovernance.History

namespace TokenGovernance
namespace History

/-- Where a search on bare places stands. -/
inductive Search where
  /-- The places from `low` on and before `high` are left. -/
  | between (low high : Nat)
  /-- Nothing is left, and this is the answer. -/
  | ended (answer : Option Nat)
  /-- A place was read that is not in the row. -/
  | outside (place : Nat)
deriving DecidableEq

variable {α : Type} {cs : List (Checkpoint α)} {time : Timestamp} {low high : Nat}

namespace Search

/-- The checkpoint in the middle of what is left decides which half stays. -/
def step (cs : List (Checkpoint α)) (time : Timestamp) : Search → Search
  | between low high =>
    if low < high then
      let mid := low + (high - low) / 2
      match cs[mid]? with
      | some c => if c.time ≤ time then between (mid + 1) high else between low mid
      | none => outside mid
    else ended low.ppred
  | ended answer => ended answer
  | outside place => outside place

/-- Where the search through a whole row stands after `k` steps. -/
def after (cs : List (Checkpoint α)) (time : Timestamp) (k : Nat) : Search :=
  (step cs time)^[k] (between 0 cs.length)

/-- Inside the row a step reads the checkpoint in the middle. -/
theorem step_between (hlt : low < high) (hhigh : high ≤ cs.length) (time : Timestamp) :
    step cs time (between low high) =
      if (cs.get ⟨low + (high - low) / 2, by omega⟩).time ≤ time
      then between (low + (high - low) / 2 + 1) high
      else between low (low + (high - low) / 2) := by
  have hmid : low + (high - low) / 2 < cs.length := by omega
  simp [step, hlt, List.getElem?_eq_getElem hmid]

/-- Where nothing is left, the place before it is the answer. -/
theorem step_ended (hle : ¬low < high) :
    step cs time (between low high) = ended low.ppred := by
  simp [step, hle]

/-! ### What a step keeps -/

/-- **The borders of what is left**: it lies in the row, the checkpoint before it is not too late,
and the one behind it is. -/
structure Bordered (cs : List (Checkpoint α)) (time : Timestamp) (low high : Nat) : Prop where
  low_le : low ≤ high
  high_le : high ≤ cs.length
  before : ∀ i : Fin cs.length, i.val + 1 = low → (cs.get i).time ≤ time
  behind : ∀ i : Fin cs.length, i.val = high → time < (cs.get i).time

/-- What is known of a search at every moment. An answer stands where nothing is left. -/
def Sound (cs : List (Checkpoint α)) (time : Timestamp) : Search → Prop
  | between low high => Bordered cs time low high
  | ended none => Bordered cs time 0 0
  | ended (some i) => Bordered cs time (i + 1) (i + 1)
  | outside _ => False

/-- At the start nothing borders on what is left. -/
theorem bordered_start (cs : List (Checkpoint α)) (time : Timestamp) :
    Bordered cs time 0 cs.length where
  low_le := Nat.zero_le _
  high_le := Nat.le_refl _
  before _ hi := absurd hi (Nat.succ_ne_zero _)
  behind i hi := absurd hi (Nat.ne_of_lt i.isLt)

/-- The checkpoint that was read becomes the border on its side. -/
theorem Bordered.sound_step (h : Bordered cs time low high) :
    Sound cs time (step cs time (between low high)) := by
  have := h.low_le
  have := h.high_le
  by_cases hlt : low < high
  · have hmid : low + (high - low) / 2 < cs.length := by omega
    rw [step_between hlt h.high_le]
    split
    · rename_i hle
      refine ⟨by omega, h.high_le, fun i hi => ?_, h.behind⟩
      obtain rfl : i = ⟨low + (high - low) / 2, hmid⟩ := Fin.ext (Nat.succ.inj hi)
      exact hle
    · rename_i hlate
      refine ⟨by omega, by omega, h.before, fun i hi => ?_⟩
      obtain rfl : i = ⟨low + (high - low) / 2, hmid⟩ := Fin.ext hi
      exact Nat.not_le.1 hlate
  · obtain rfl : low = high := by omega
    rw [step_ended hlt]
    cases low with
    | zero => exact h
    | succ i => exact h

/-- **A step keeps what is known of a search.** -/
theorem Sound.step {s : Search} (h : Sound cs time s) : Sound cs time (step cs time s) := by
  cases s with
  | between low high => exact Bordered.sound_step h
  | ended answer => exact h
  | outside place => exact h.elim

/-- **At every moment the search is inside the row, between its borders.** -/
theorem sound_after (cs : List (Checkpoint α)) (time : Timestamp) (k : Nat) :
    Sound cs time (after cs time k) := by
  induction k with
  | zero => exact bordered_start cs time
  | succ k ih =>
    rw [after, Function.iterate_succ_apply']
    exact ih.step

/-! ### The end of a search -/

/-- Half of what is left takes one binary digit less. -/
theorem exists_of_lt_shiftLeft (hlt : low < high) {k : Nat} (hk : high - low < 1 <<< k) :
    ∃ j, k = j + 1 ∧ (high - low) / 2 < 1 <<< j := by
  cases k with
  | zero =>
    rw [Nat.shiftLeft_zero] at hk
    omega
  | succ j =>
    rw [Nat.shiftLeft_succ] at hk
    exact ⟨j, rfl, by omega⟩

/-- **If `k` binary digits are enough for the number of places that are left, `k` steps leave
none**, and one more gives the place before the one at which the search by halves arrives. The
induction is along the search by halves, for every `k`: each step has one digit less to go. -/
theorem iterate_step_between {p : Fin cs.length → Bool}
    (hp : ∀ i, p i = true ↔ (cs.get i).time ≤ time) (hn : high ≤ cs.length) (k : Nat) :
    high - low < 1 <<< k →
      (step cs time)^[k + 1] (between low high) = ended (bisect p low high hn).ppred := by
  revert k
  fun_induction bisect p low high hn with
  | case1 low high hn hlt mid hmid ih =>
    intro k hk
    obtain ⟨k, rfl, hk⟩ := exists_of_lt_shiftLeft hlt hk
    rw [Function.iterate_succ_apply, step_between hlt hn, if_pos ((hp _).1 hmid)]
    exact ih _ (by omega)
  | case2 low high hn hlt mid hmid ih =>
    intro k hk
    obtain ⟨k, rfl, hk⟩ := exists_of_lt_shiftLeft hlt hk
    rw [Function.iterate_succ_apply, step_between hlt hn, if_neg fun h => hmid ((hp _).2 h)]
    exact ih _ (by omega)
  | case3 low high hn hle =>
    intro k hk
    rw [Function.iterate_succ_apply, step_ended hle, Function.iterate_fixed rfl]

/-- The checkpoint that is found is the one before the place at which the search arrives. -/
theorem map_val_rightmost? (cs : List (Checkpoint α)) (time : Timestamp) :
    (rightmost? cs time).map Fin.val =
      (bisect (fun i => decide ((cs.get i).time ≤ time)) 0 cs.length (Nat.le_refl _)).ppred := by
  unfold rightmost?
  simp only
  split
  · rename_i h
    exact (Nat.ppred_eq_none.2 h).symm
  · rename_i i h
    exact (Nat.ppred_eq_some.2 h.symm).symm

/-- **The search on bare places ends with the answer of the search by halves.** -/
theorem after_eq_ended {k : Nat} (hk : cs.length.log2 + 2 ≤ k) :
    after cs time k = ended ((rightmost? cs time).map Fin.val) := by
  obtain ⟨k, rfl⟩ : ∃ j, k = j + 1 := ⟨k - 1, by omega⟩
  have hdigits : cs.length - 0 < 1 <<< k := by
    rw [Nat.one_shiftLeft, Nat.sub_zero]
    exact Nat.lt_of_lt_of_le Nat.lt_log2_self (Nat.pow_le_pow_right (by omega) (by omega))
  rw [after, iterate_step_between (fun i => decide_eq_true_iff) (Nat.le_refl _) k hdigits,
    map_val_rightmost?]

/-- What is known of the answer is what was known when nothing was left. -/
theorem sound_rightmost? (cs : List (Checkpoint α)) (time : Timestamp) :
    Sound cs time (ended ((rightmost? cs time).map Fin.val)) := by
  rw [← after_eq_ended (Nat.le_refl _)]
  exact sound_after cs time _

end Search

/-- In any row the search ended right behind the checkpoint that is found. -/
theorem bordered_of_rightmost? {i : Fin cs.length} (h : rightmost? cs time = some i) :
    Search.Bordered cs time (i.val + 1) (i.val + 1) := by
  have hsound := Search.sound_rightmost? cs time
  rwa [h] at hsound

/-- In any row the search ended at the start if none is found. -/
theorem bordered_of_rightmost?_eq_none (h : rightmost? cs time = none) :
    Search.Bordered cs time 0 0 := by
  have hsound := Search.sound_rightmost? cs time
  rwa [h] at hsound

/-! ### Rows in order -/

/-- Where times never decrease, a checkpoint is not earlier than one before it. -/
theorem time_le_of_le (ho : cs.Pairwise (·.time ≤ ·.time)) {i j : Fin cs.length} (hij : i ≤ j) :
    (cs.get i).time ≤ (cs.get j).time := by
  rcases Nat.eq_or_lt_of_le hij with heq | hlt
  · rw [Fin.ext heq]
    exact Nat.le_refl _
  · exact List.pairwise_iff_getElem.1 ho i j i.isLt j.isLt hlt

/-- Where times never decrease, the place that is found is the greatest at or before the instant,
since what follows the later neighbour is not earlier than it. -/
theorem isGreatest_of_rightmost? (ho : cs.Pairwise (·.time ≤ ·.time)) {i : Fin cs.length}
    (h : rightmost? cs time = some i) : IsGreatest {j | (cs.get j).time ≤ time} i := by
  have hb := bordered_of_rightmost? h
  refine ⟨hb.before i rfl, fun j hj => Nat.not_lt.1 fun hlt => ?_⟩
  have hnext : i.val + 1 < cs.length := by omega
  have hlate : time < (cs.get ⟨i.val + 1, hnext⟩).time := hb.behind _ rfl
  have hle : (cs.get ⟨i.val + 1, hnext⟩).time ≤ (cs.get j).time := time_le_of_le ho hlt
  exact Nat.not_le.2 hlate (Nat.le_trans hle hj)

/-- Where times never decrease and no place is found, all checkpoints are later. -/
theorem lt_time_of_rightmost?_eq_none (ho : cs.Pairwise (·.time ≤ ·.time))
    (h : rightmost? cs time = none) (j : Fin cs.length) : time < (cs.get j).time := by
  have hfirst : 0 < cs.length := Nat.zero_lt_of_lt j.isLt
  have hlate : time < (cs.get ⟨0, hfirst⟩).time :=
    (bordered_of_rightmost?_eq_none h).behind _ rfl
  exact Nat.lt_of_lt_of_le hlate (time_le_of_le ho (Nat.zero_le _))

/-- **A place is found exactly when it is the greatest that is not later**, where times never
decrease. -/
theorem rightmost?_eq_some_iff (ho : cs.Pairwise (·.time ≤ ·.time)) {i : Fin cs.length} :
    rightmost? cs time = some i ↔ IsGreatest {j | (cs.get j).time ≤ time} i := by
  refine ⟨isGreatest_of_rightmost? ho, fun hi => ?_⟩
  cases h : rightmost? cs time with
  | none => exact absurd hi.1 (Nat.not_le.2 (lt_time_of_rightmost?_eq_none ho h i))
  | some j => exact congrArg some ((isGreatest_of_rightmost? ho h).unique hi)

/-- **No place is found exactly when all checkpoints are later**, where times never decrease. -/
theorem rightmost?_eq_none_iff (ho : cs.Pairwise (·.time ≤ ·.time)) :
    rightmost? cs time = none ↔ ∀ c ∈ cs, time < c.time := by
  constructor
  · intro h c hc
    obtain ⟨j, rfl⟩ := List.mem_iff_get.1 hc
    exact lt_time_of_rightmost?_eq_none ho h j
  · intro hlate
    cases h : rightmost? cs time with
    | none => rfl
    | some i =>
      have hle : (cs.get i).time ≤ time := (bordered_of_rightmost? h).before i rfl
      exact absurd hle (Nat.not_le.2 (hlate _ (List.get_mem ..)))

/-- **Where times never decrease, the last checkpoint at or before the instant is found.** -/
theorem getLast?_filter_time (ho : cs.Pairwise (·.time ≤ ·.time)) (time : Timestamp) :
    (cs.filter (·.time ≤ time)).getLast? = (rightmost? cs time).map cs.get := by
  cases h : rightmost? cs time with
  | none =>
    have hnil : cs.filter (·.time ≤ time) = [] := by
      refine List.filter_eq_nil_iff.2 fun c hc hle => ?_
      exact Nat.not_le.2 ((rightmost?_eq_none_iff ho).1 h c hc) (of_decide_eq_true hle)
    rw [hnil]
    rfl
  | some i =>
    obtain ⟨hle, hgreatest⟩ := (rightmost?_eq_some_iff ho).1 h
    have hbehind : (cs.drop (i.val + 1)).filter (·.time ≤ time) = [] := by
      refine List.filter_eq_nil_iff.2 fun c hc hc' => ?_
      obtain ⟨j, hj, rfl⟩ := List.mem_drop_iff_getElem.1 hc
      have hplace : i.val + 1 + j ≤ i.val :=
        @hgreatest ⟨i.val + 1 + j, by omega⟩ (by simpa using hc')
      omega
    conv_lhs => rw [← List.take_append_drop i.val cs]
    rw [List.filter_append, List.drop_eq_getElem_cons i.isLt,
      List.filter_cons_of_pos (by simpa using hle), hbehind, List.getLast?_concat]
    rfl

/-- **The search by halves keeps to its row, whatever the order, and is exact where times never
decrease.** The search on bare places never reads one that is not in the row, and after a number of
steps that is logarithmic in its length it has ended for good, with the answer of the search by
halves. A checkpoint that is found is at or before the instant and the next one, if there is one, is
later; if none is found, the first one, if there is one, is later. Where times never decrease, the
place that is found is the greatest at or before the instant, and none is found exactly if there is
none. -/
theorem search_exact (cs : List (Checkpoint α)) (time : Timestamp) :
    (∀ k place, Search.after cs time k ≠ .outside place) ∧
    (∀ k, cs.length.log2 + 2 ≤ k →
      Search.after cs time k = .ended ((rightmost? cs time).map Fin.val)) ∧
    (∀ i, rightmost? cs time = some i →
      (cs.get i).time ≤ time ∧ ∀ next, cs[i.val + 1]? = some next → time < next.time) ∧
    (rightmost? cs time = none → ∀ first, cs.head? = some first → time < first.time) ∧
    (cs.Pairwise (·.time ≤ ·.time) →
      (∀ i, rightmost? cs time = some i ↔ IsGreatest {j | (cs.get j).time ≤ time} i) ∧
      (rightmost? cs time = none ↔ ∀ c ∈ cs, time < c.time)) := by
  refine ⟨fun k place hk => ?_, fun k => Search.after_eq_ended, fun i hi => ?_,
    fun hnone first hfirst => ?_,
    fun ho => ⟨fun i => rightmost?_eq_some_iff ho, rightmost?_eq_none_iff ho⟩⟩
  · have hsound := Search.sound_after cs time k
    rw [hk] at hsound
    exact hsound
  · have hb := bordered_of_rightmost? hi
    refine ⟨hb.before i rfl, fun next hnext => ?_⟩
    obtain ⟨hlt, rfl⟩ := List.getElem?_eq_some_iff.1 hnext
    exact hb.behind ⟨_, hlt⟩ rfl
  · rw [List.head?_eq_getElem?] at hfirst
    obtain ⟨hlt, rfl⟩ := List.getElem?_eq_some_iff.1 hfirst
    exact (bordered_of_rightmost?_eq_none hnone).behind ⟨_, hlt⟩ rfl

/-- In the first row the later of two equal times is found. The second is out of order: what is
found at `second` has a later neighbour, but is not the greatest place, and nothing is found at
`zero`. -/
theorem search_exact_of_disorder :
    let zero : Timestamp := ⟨.zero⟩
    let first : Timestamp := ⟨⟨1, by decide⟩⟩
    let second : Timestamp := ⟨⟨2, by decide⟩⟩
    let third : Timestamp := ⟨⟨3, by decide⟩⟩
    let row : List (Checkpoint Char) :=
      [⟨first, 'a'⟩, ⟨second, 'b'⟩, ⟨second, 'c'⟩, ⟨third, 'd'⟩]
    let jumble : List (Checkpoint Char) :=
      [⟨second, 'a'⟩, ⟨first, 'b'⟩, ⟨third, 'c'⟩, ⟨first, 'd'⟩]
    row.Pairwise (·.time ≤ ·.time) ∧ rightmost? row second = some ⟨2, by decide⟩ ∧
      rightmost? jumble second = some ⟨1, by decide⟩ ∧ second < third ∧
      ¬IsGreatest {j | (jumble.get j).time ≤ second} ⟨1, by decide⟩ ∧
      rightmost? jumble zero = none ∧ zero < second := by
  intro zero first second third row jumble
  obtain ⟨-, -, -, -, hrow⟩ := search_exact row second
  obtain ⟨-, hended, hfound, -, -⟩ := search_exact jumble second
  obtain ⟨-, hended', -, hnone, -⟩ := search_exact jumble zero
  have hordered : row.Pairwise (·.time ≤ ·.time) := by decide
  have hone : rightmost? jumble second = some ⟨1, by decide⟩ := by
    have hrun : Search.after jumble second 4 = .ended (some 1) := by decide
    have hanswer := Search.ended.inj ((hended 4 (by decide)).symm.trans hrun)
    obtain ⟨i, hi, hval⟩ := Option.map_eq_some_iff.1 hanswer
    rw [hi]
    exact congrArg some (Fin.ext hval)
  have hzero : rightmost? jumble zero = none := by
    have hrun : Search.after jumble zero 4 = .ended none := by decide
    exact Option.map_eq_none_iff.1 (Search.ended.inj ((hended' 4 (by decide)).symm.trans hrun))
  refine ⟨hordered, ((hrow hordered).1 _).2 ⟨by decide, fun j => ?_⟩, hone,
    (hfound _ hone).2 ⟨third, 'c'⟩ rfl, fun hgreatest => ?_, hzero,
    hnone hzero ⟨second, 'a'⟩ rfl⟩
  · revert j
    decide
  · exact absurd (hgreatest.2 (show (3 : Fin 4) ∈ _ from by decide)) (by decide)

end History
end TokenGovernance
