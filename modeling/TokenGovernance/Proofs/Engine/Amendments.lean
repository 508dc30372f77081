/-
# Who changes the parameters

Two calls write the parameters: the one that sets the engine up, and the execution of a proposal
that targets the parameter store. An answered call is one of these two or leaves the parameters
alone (`Engine.Answered.governed`). Over a whole run this adds up to a law
(`Engine.parameters_governed`):

| over a run | because in a turn |
| --- | --- |
| the engine is set up once | it was not set up before, and then it is |
| a proposal amends once | it was not executed before, and then it is |
| the parameters stay sound | both writers checked them |
| the version counts the amendments | an amendment raises it by one |
-/

import TokenGovernance.Host.Rehearsal
import TokenGovernance.Proofs.Engine.Registry

namespace TokenGovernance

/-- Whether carrying out a proposal has amended the parameters. -/
def Proposal.hasAmended (p : Proposal) : Bool := p.executed && p.target = .parameterStore

namespace State

/-- Whether the proposal with a number has amended the parameters. -/
def hasAmended (s : State) (id : ProposalId) : Bool := s.proposals[id]?.any (·.hasAmended)

/-- How many proposals have amended the parameters. -/
def amendmentCount (s : State) : Nat := s.allProposals.countP (·.hasAmended)

variable {s s' : State} {id : ProposalId} {p : Proposal}

/-- One record and the others are all records. -/
theorem toList_perm_of_getElem? {m : Std.ExtTreeMap ProposalId Proposal} (found : m[id]? = some p) :
    m.toList.Perm ((id, p) :: (m.erase id).toList) := by
  have hnodup (m : Std.ExtTreeMap ProposalId Proposal) : m.toList.Nodup :=
    Std.ExtTreeMap.distinct_keys_toList.imp fun h e => h (by rw [e]; exact Std.ReflCmp.compare_self)
  have hnew : (id, p) ∉ (m.erase id).toList := by
    rw [Std.ExtTreeMap.mem_toList_iff_getElem?_eq_some]
    simp
  refine (List.perm_ext_iff_of_nodup (hnodup m) (List.nodup_cons.2 ⟨hnew, hnodup _⟩)).2 ?_
  rintro ⟨i, q⟩
  rw [List.mem_cons, Std.ExtTreeMap.mem_toList_iff_getElem?_eq_some,
    Std.ExtTreeMap.mem_toList_iff_getElem?_eq_some, SortedMap.getElem?_erase]
  by_cases hi : i = id
  · subst hi
    simp [found, eq_comm]
  · simp [hi, Ne.symm hi]

/-- The proposals that have amended the parameters are counted one number at a time. -/
theorem amendmentCount_eq (s : State) (id : ProposalId) :
    s.amendmentCount = (s.hasAmended id).toNat +
      ((s.proposals.erase id).toList.map Prod.snd).countP (·.hasAmended) := by
  unfold amendmentCount allProposals hasAmended
  rcases found : s.proposals[id]? with _ | p
  · have hsame : s.proposals.erase id = s.proposals := by
      refine Std.ExtTreeMap.ext_getElem? fun i => ?_
      rw [SortedMap.getElem?_erase]
      split
      · rename_i hi
        rw [← hi, found]
      · rfl
    rw [hsame]
    simp
  · rw [((toList_perm_of_getElem? found).map Prod.snd).countP_eq, List.map_cons, List.countP_cons,
      Nat.add_comm, Option.any_some]
    cases p.hasAmended <;> rfl

/-- A record that is written tells of its own number alone whether it has amended the parameters. -/
theorem hasAmended_insert (hp : s'.proposals = s.proposals.insert id p) (i : ProposalId) :
    s'.hasAmended i = if i = id then p.hasAmended else s.hasAmended i := by
  unfold hasAmended
  rw [hp, getElem?_insert_proposal]
  split <;> rfl

/-- A record that is written counts in place of the one that was there. -/
theorem amendmentCount_insert (hp : s'.proposals = s.proposals.insert id p) :
    s'.amendmentCount + (s.hasAmended id).toNat = s.amendmentCount + p.hasAmended.toNat := by
  have herase : s'.proposals.erase id = s.proposals.erase id := by
    refine Std.ExtTreeMap.ext_getElem? fun i => ?_
    rw [hp, Std.ExtTreeMap.getElem?_erase, Std.ExtTreeMap.getElem?_erase,
      Std.ExtTreeMap.getElem?_insert]
    split <;> rfl
  rw [amendmentCount_eq s' id, amendmentCount_eq s id, herase, hasAmended_insert hp, if_pos rfl]
  omega

/-- Before set-up there are no proposals, so none has amended anything. -/
theorem Registered.amendmentCount_eq_zero (h : s.Registered) (first : s.initialized = false) :
    s.amendmentCount = 0 := by
  refine List.countP_eq_zero.2 fun p hp => ?_
  obtain ⟨⟨id, q⟩, hq, rfl⟩ := List.mem_map.1 hp
  have hinit := h.initialized (Std.ExtTreeMap.mem_toList_iff_getElem?_eq_some.1 hq)
  rw [first] at hinit
  cases hinit

end State

namespace Engine

variable {host : Host} {e e' : Engine} {c : Call} {answer : Answer} {id : ProposalId}
  {p : Proposal}

/-- Nothing that concerns the parameters differs between two engines. -/
structure KeepsParameters (e e' : Engine) : Prop where
  parameters : e'.state.parameters = e.state.parameters
  initialized : e'.state.initialized = e.state.initialized
  hasAmended : ∀ id, e'.state.hasAmended id = e.state.hasAmended id
  amendmentCount : e'.state.amendmentCount = e.state.amendmentCount

/-- A call gives the engine its first parameters. -/
structure GivesParameters (host : Host) (e : Engine) (c : Call) (answer : Except Fault Answer)
    (e' : Engine) (caller : Account) (parameters : Parameters) : Prop where
  call : c = .setUp caller parameters
  answer : answer = .ok .done
  owner : host.isOwner caller = true
  first : e.state.initialized = false
  sound : parameters.defect? = none
  given : e'.state = { e.state with parameters, initialized := true }

/-- A call carries out a proposal that amends the parameters. -/
structure AmendsParameters (e : Engine) (c : Call) (answer : Except Fault Answer) (e' : Engine)
    (id : ProposalId) (p : Proposal) (amendment : Amendment) : Prop where
  call : ∃ now, c = .execute id now
  answer : answer = .ok (.outcome (.executed []))
  found : e.state.proposals[id]? = some p
  unexecuted : p.executed = false
  internal : p.target = .parameterStore
  decoded : Amendment.decode p.payload = .ok amendment
  applied : amendment.apply e.state.parameters = .ok e'.state.parameters
  initialized : e'.state.initialized = e.state.initialized
  noted : ∃ p', p'.hasAmended = true ∧ e'.state.proposals = e.state.proposals.insert id p'

/-- An engine that stays as it is keeps its parameters. -/
theorem KeepsParameters.refl (e : Engine) : KeepsParameters e e := ⟨rfl, rfl, fun _ => rfl, rfl⟩

/-- A record that is written has amended the parameters just if the one in its place had. -/
theorem KeepsParameters.of_insert (parameters : e'.state.parameters = e.state.parameters)
    (initialized : e'.state.initialized = e.state.initialized)
    (hp : e'.state.proposals = e.state.proposals.insert id p)
    (same : p.hasAmended = e.state.hasAmended id) : KeepsParameters e e' where
  parameters := parameters
  initialized := initialized
  hasAmended i := by
    rw [State.hasAmended_insert hp]
    split
    · rename_i hi
      rw [hi, same]
    · rfl
  amendmentCount := by
    have := State.amendmentCount_insert hp
    rw [same] at this
    omega

/-- **An answered call leaves the parameters alone, gives the first ones or amends them.** An
outside action is no amendment, executed or not. -/
theorem Answered.governed (h : Answered host e c answer e') (hr : e.state.Registered) :
    ((∀ caller parameters, c ≠ .setUp caller parameters) ∧ KeepsParameters e e') ∨
      (∃ caller parameters, GivesParameters host e c (.ok answer) e' caller parameters) ∨
      ∃ id p amendment, AmendsParameters e c (.ok answer) e' id p amendment := by
  have stored {id : ProposalId} {p : Proposal} (found : e.state.proposals[id]? = some p) :
      e.state.hasAmended id = p.hasAmended := by
    rw [State.hasAmended, found, Option.any_some]
  induction h with
  | setUp first owner sound => exact .inr (.inl ⟨_, _, rfl, rfl, owner, first, sound, rfl⟩)
  | undelegate _ ih =>
    rcases ih with ⟨-, hkeeps⟩ | ⟨_, _, hgives⟩ | ⟨_, _, _, hamends⟩
    · exact .inl ⟨nofun, hkeeps⟩
    · cases hgives.call
    · obtain ⟨_, hcall⟩ := hamends.call
      cases hcall
  | create _ _ _ _ _ next =>
    refine .inl ⟨nofun, .of_insert rfl rfl rfl ?_⟩
    rw [State.hasAmended, hr.fresh next]
    rfl
  | cancel _ found => exact .inl ⟨nofun, .of_insert rfl rfl rfl (stored found).symm⟩
  | vote _ found => exact .inl ⟨nofun, .of_insert rfl rfl rfl (stored found).symm⟩
  | arm _ found => exact .inl ⟨nofun, .of_insert rfl rfl rfl (stored found).symm⟩
  | invoke _ found _ external =>
    refine .inl ⟨nofun, .of_insert rfl rfl rfl ((stored found).trans ?_).symm⟩
    simp [Proposal.hasAmended, external]
  | amend _ found due internal _ decoded applied =>
    refine .inr (.inr ⟨_, _, _, ⟨_, rfl⟩, rfl, found, due.passed.not_executed, internal, decoded,
      applied, rfl, _, ?_, rfl⟩)
    simp [Proposal.hasAmended, internal]
  | _ => exact .inl ⟨nofun, rfl, rfl, fun _ => rfl, rfl⟩

end Engine

namespace Turn

variable {t : Turn} {id : ProposalId}

/-- Whether a turn sets the engine up. -/
def setsUp (t : Turn) : Bool :=
  match t.call with
  | .setUp .. => t.answer.isOk
  | _ => false

/-- Whether the parameters change in a turn that executes a proposal. -/
def amends (id : ProposalId) (t : Turn) : Bool :=
  match t.call with
  | .execute i _ => i = id && t.after.state.parameters ≠ t.before.state.parameters
  | _ => false

/-- **A turn leaves the parameters alone, gives the first ones or amends them.** -/
theorem governed (t : Turn) (hr : t.before.state.Registered) :
    (t.setsUp = false ∧ Engine.KeepsParameters t.before t.after) ∨
      (∃ caller parameters,
        Engine.GivesParameters t.host t.before t.call t.answer t.after caller parameters) ∨
      ∃ id p amendment,
        Engine.AmendsParameters t.before t.call t.answer t.after id p amendment := by
  rcases t.answered_or_refused with ⟨answer, hanswer, ha⟩ | ⟨f, hf, hkept, -⟩
  · rw [hanswer]
    rcases ha.governed hr with ⟨hcall, hkeeps⟩ | hother
    · refine .inl ⟨?_, hkeeps⟩
      unfold setsUp
      split
      · rename_i caller parameters hc
        exact absurd hc (hcall caller parameters)
      · rfl
    · exact .inr hother
  · rw [hkept]
    refine .inl ⟨?_, .refl _⟩
    unfold setsUp
    rw [hf]
    split <;> rfl

/-- A turn sets the engine up exactly if it was not set up before and then is. -/
theorem setsUp_step (t : Turn) (hr : t.before.state.Registered) :
    t.setsUp = false ∧ t.after.state.initialized = t.before.state.initialized ∨
      t.setsUp = true ∧ t.before.state.initialized = false ∧ t.after.state.initialized = true := by
  rcases t.governed hr with ⟨hno, hkeeps⟩ | ⟨_, _, hgives⟩ | ⟨_, _, _, hamends⟩
  · exact .inl ⟨hno, hkeeps.initialized⟩
  · refine .inr ⟨?_, hgives.first, by rw [hgives.given]⟩
    rw [setsUp, hgives.call, hgives.answer]
    rfl
  · obtain ⟨now, hcall⟩ := hamends.call
    exact .inl ⟨by rw [setsUp, hcall], hamends.initialized⟩

/-- A turn amends on behalf of a proposal exactly if it had not amended before and then has. -/
theorem amends_step (t : Turn) (hr : t.before.state.Registered) (id : ProposalId) :
    t.amends id = false ∧ t.after.state.hasAmended id = t.before.state.hasAmended id ∨
      t.amends id = true ∧ t.before.state.hasAmended id = false ∧
        t.after.state.hasAmended id = true := by
  rcases t.governed hr with ⟨-, hkeeps⟩ | ⟨_, _, hgives⟩ | ⟨i, p, amendment, hamends⟩
  · refine .inl ⟨?_, hkeeps.hasAmended id⟩
    unfold amends
    split
    · simp [hkeeps.parameters]
    · rfl
  · refine .inl ⟨by rw [amends, hgives.call], ?_⟩
    rw [State.hasAmended, hgives.given]
    rfl
  · obtain ⟨now, hcall⟩ := hamends.call
    obtain ⟨p', hp', hnoted⟩ := hamends.noted
    have hne := Amendment.ne_of_apply hamends.applied
    rw [amends, hcall, State.hasAmended_insert hnoted]
    by_cases hid : i = id
    · subst hid
      have hbefore : t.before.state.hasAmended i = false := by
        simp [State.hasAmended, hamends.found, Proposal.hasAmended, hamends.unexecuted]
      exact .inr ⟨by simp [hne], hbefore, by rw [if_pos rfl, hp']⟩
    · exact .inl ⟨by simp [hid], if_neg (Ne.symm hid)⟩

end Turn

namespace Engine

variable {e : Engine}

/-! ### Over a run -/

/-- **The parameters of an engine that is set up are sound.** -/
theorem Reachable.sound (h : e.Reachable) (initialized : e.state.initialized = true) :
    e.state.parameters.defect? = none := by
  refine (h.invariant (P := fun e => e.state.Registered ∧
    (e.state.initialized = true → e.state.parameters.defect? = none))
    ⟨State.registered_empty, nofun⟩ ?_).2 initialized
  rintro host e c answer e' ha ⟨hr, hsound⟩
  refine ⟨ha.registered hr, fun hinit => ?_⟩
  rcases ha.governed hr with ⟨-, hkeeps⟩ | ⟨_, _, hgives⟩ | ⟨_, _, _, hamends⟩
  · rw [hkeeps.parameters]
    exact hsound (hkeeps.initialized ▸ hinit)
  · rw [hgives.given]
    exact hgives.sound
  · exact Parameters.validate_eq_ok_iff.1 (Amendment.validate_of_apply hamends.applied)

/-- **The version counts the amendments**, from the version that was given at set-up. -/
theorem version_run (calls : List (Host × Call)) :
    (run {} calls).state.initialized = true → ∃ t ∈ trace {} calls, ∃ caller initial,
      GivesParameters t.host t.before t.call t.answer t.after caller initial ∧
      (run {} calls).state.parameters.version.val =
        initial.version.val + (run {} calls).state.amendmentCount := by
  refine (trace_induction (P := fun turns e => e.state.Registered ∧
    (e.state.initialized = true → ∃ t ∈ turns, ∃ caller initial,
      GivesParameters t.host t.before t.call t.answer t.after caller initial ∧
      e.state.parameters.version.val = initial.version.val + e.state.amendmentCount))
    ⟨State.registered_empty, fun h => absurd h Bool.false_ne_true⟩
    (fun turns t ⟨hr, h⟩ => ⟨Turn.registered_after hr, fun hinit => ?_⟩) calls).2
  rcases t.governed hr with ⟨-, hkeeps⟩ | ⟨caller, initial, hgives⟩ | ⟨id, p, amendment, hamends⟩
  · obtain ⟨u, hu, caller, initial, hgives, hversion⟩ := h (hkeeps.initialized ▸ hinit)
    refine ⟨u, List.mem_append_left _ hu, caller, initial, hgives, ?_⟩
    rw [hkeeps.parameters, hkeeps.amendmentCount, hversion]
  · refine ⟨t, List.mem_append_right _ (List.mem_singleton_self t), caller, initial, hgives, ?_⟩
    have hnone : t.after.state.amendmentCount = 0 := by
      rw [hgives.given]
      exact hr.amendmentCount_eq_zero hgives.first
    rw [hnone, hgives.given]
    rfl
  · obtain ⟨u, hu, caller, initial, hgives, hversion⟩ := h (hamends.initialized ▸ hinit)
    refine ⟨u, List.mem_append_left _ hu, caller, initial, hgives, ?_⟩
    obtain ⟨p', hp', hnoted⟩ := hamends.noted
    have hcount := State.amendmentCount_insert hnoted
    have hbefore : t.before.state.hasAmended id = false := by
      simp [State.hasAmended, hamends.found, Proposal.hasAmended, hamends.unexecuted]
    rw [hbefore, hp'] at hcount
    have hraised := Amendment.version_of_apply hamends.applied
    simp only [Bool.toNat_false, Bool.toNat_true] at hcount
    omega

/-- No turn lowers the version of the parameters that are in force, and none but an amendment keeps
them from staying as they are. -/
theorem Reachable.parameters_after (h : e.Reachable) (initialized : e.state.initialized = true)
    (host : Host) (c : Call) :
    let e' := (Turn.mk e host c).after
    e'.state.initialized = true ∧ (e'.state.parameters = e.state.parameters ∨
      e.state.parameters.version.val < e'.state.parameters.version.val) := by
  intro e'
  rcases (Turn.mk e host c).governed h.registered with
    ⟨-, hkeeps⟩ | ⟨_, _, hgives⟩ | ⟨_, _, _, hamends⟩
  · exact ⟨hkeeps.initialized.trans initialized, .inl hkeeps.parameters⟩
  · have hfirst := hgives.first
    rw [initialized] at hfirst
    cases hfirst
  · have hraised : e'.state.parameters.version.val = e.state.parameters.version.val + 1 :=
      Amendment.version_of_apply hamends.applied
    exact ⟨hamends.initialized.trans initialized, .inr (by omega)⟩

/-- The version of the parameters never goes down. -/
theorem Reachable.version_le_run (h : e.Reachable) (initialized : e.state.initialized = true)
    (calls : List (Host × Call)) :
    e.state.parameters.version.val ≤ (e.run calls).state.parameters.version.val := by
  induction calls generalizing e with
  | nil => exact Nat.le_refl _
  | cons turn calls ih =>
    obtain ⟨host, c⟩ := turn
    obtain ⟨hinit, hparameters⟩ := h.parameters_after initialized host c
    refine Nat.le_trans ?_ (ih (h.run [(host, c)]) hinit)
    rcases hparameters with hsame | hraised
    · exact Nat.le_of_eq (by rw [← hsame]; rfl)
    · exact Nat.le_of_lt hraised

/-- Parameters that a run ends with as it began were not amended on the way. -/
theorem Reachable.parameters_after_eq (h : e.Reachable) (initialized : e.state.initialized = true)
    {host : Host} {c : Call} {calls : List (Host × Call)}
    (same : (e.run ((host, c) :: calls)).state.parameters = e.state.parameters) :
    (Turn.mk e host c).after.state.parameters = e.state.parameters := by
  obtain ⟨hinit, hparameters⟩ := h.parameters_after initialized host c
  rcases hparameters with hsame | hraised
  · exact hsame
  · have hle := (h.run [(host, c)]).version_le_run hinit calls
    rw [← same] at hraised
    exact absurd hraised (Nat.not_lt.2 hle)

/-- **Only governance changes the parameters.** Over any run they change only where the owner sets
the engine up, which happens once, and where a proposal for the parameter store is executed, which
happens once for each, to what its amendment makes of the parameters then in force. So they are
sound from set-up on, and their version counts the amendments that were carried out. -/
theorem parameters_governed (calls : List (Host × Call)) :
    (∀ t ∈ trace {} calls, t.after.state.parameters ≠ t.before.state.parameters →
      (∃ caller, t.call = .setUp caller t.after.state.parameters ∧ t.answer = .ok .done ∧
        t.host.isOwner caller = true ∧ t.before.state.initialized = false) ∨
      ∃ id now p amendment, t.call = .execute id now ∧
        t.answer = .ok (.outcome (.executed [])) ∧ t.before.state.proposals[id]? = some p ∧
        p.target = .parameterStore ∧ Amendment.decode p.payload = .ok amendment ∧
        amendment.apply t.before.state.parameters = .ok t.after.state.parameters) ∧
    ((trace {} calls).filter Turn.setsUp).length =
      (if (run {} calls).state.initialized then 1 else 0) ∧
    (∀ id, ((trace {} calls).filter (Turn.amends id)).length =
      if (run {} calls).state.hasAmended id then 1 else 0) ∧
    ((run {} calls).state.initialized = true →
      (run {} calls).state.parameters.validate = .ok () ∧
      ∃ t ∈ trace {} calls, ∃ caller initial,
        t.call = .setUp caller initial ∧ t.answer = .ok .done ∧ t.host.isOwner caller = true ∧
        (run {} calls).state.parameters.version.val = initial.version.val +
          ((run {} calls).state.allProposals.filter
            fun p => p.executed && p.target = .parameterStore).length) := by
  refine ⟨fun t ht hchanged => ?_, length_filter_trace _ rfl Turn.setsUp_step calls,
    fun id => length_filter_trace (·.hasAmended id) rfl (·.amends_step · id) calls,
    fun hinit => ⟨?_, ?_⟩⟩
  · have hr := (reachable_of_mem_trace (reachable_run []) ht).registered
    rcases t.governed hr with ⟨-, hkeeps⟩ | ⟨caller, initial, hgives⟩ | ⟨id, p, amendment, hamends⟩
    · exact absurd hkeeps.parameters hchanged
    · have hgiven : t.after.state.parameters = initial := by rw [hgives.given]
      exact .inl ⟨caller, hgiven ▸ hgives.call, hgives.answer, hgives.owner, hgives.first⟩
    · obtain ⟨now, hcall⟩ := hamends.call
      exact .inr ⟨id, now, p, amendment, hcall, hamends.answer, hamends.found, hamends.internal,
        hamends.decoded, hamends.applied⟩
  · exact Parameters.validate_eq_ok_iff.2 ((reachable_run calls).sound hinit)
  · obtain ⟨t, ht, caller, initial, hgives, hversion⟩ := version_run calls hinit
    refine ⟨t, ht, caller, initial, hgives.call, hgives.answer, hgives.owner, ?_⟩
    rw [hversion, State.amendmentCount, List.countP_eq_length_filter]
    rfl

/-- An amendment that is carried out at once, and once although it is asked for twice. -/
theorem parameters_governed_of_amendment :
    let alice : Account := ⟨"civ_alice", by decide⟩
    let foundation : Account := ⟨"civ_foundation", by decide⟩
    let host := Rehearsal.host { owner := foundation }
    let payload := Binary.Codec.amendment.write (.set .executionDelay ⟨60, by decide⟩)
    let calls : List (Host × Call) := [
      (host, .setUp foundation
        { votingDelay := .zero, executionDelay := .zero, version := ⟨3, by decide⟩ }),
      (host, .recordBalance alice ⟨5, by decide⟩ ⟨⟨1, by decide⟩⟩),
      (host, .create alice ⟨"slow down", "", .parameterStore, payload, .zero⟩ ⟨⟨2, by decide⟩⟩),
      (host, .vote alice .first .inFavor "" ⟨⟨2, by decide⟩⟩),
      (host, .execute .first ⟨⟨604803, by decide⟩⟩),
      (host, .execute .first ⟨⟨604804, by decide⟩⟩)]
    ((trace {} calls).filter (Turn.amends .first)).length = 1 ∧
      (run {} calls).state.parameters.validate = .ok () ∧
      ∃ t ∈ trace {} calls, ∃ caller initial, t.call = .setUp caller initial ∧
        (run {} calls).state.parameters.version.val = initial.version.val + 1 := by
  intro alice foundation host payload calls
  obtain ⟨-, -, hamends, hset⟩ := parameters_governed calls
  have hinit : (run {} calls).state.initialized = true := by decide +kernel
  have hamended : (run {} calls).state.hasAmended .first = true := by decide +kernel
  have hcount : ((run {} calls).state.allProposals.filter
      fun p => p.executed && p.target = .parameterStore).length = 1 := by
    decide +kernel
  obtain ⟨hsound, t, ht, caller, initial, hcall, -, -, hversion⟩ := hset hinit
  rw [hcount] at hversion
  exact ⟨by rw [hamends, hamended, if_pos rfl], hsound, t, ht, caller, initial, hcall, hversion⟩

end Engine
end TokenGovernance
