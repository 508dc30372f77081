/-
# Written configurations read back

A configuration is written exactly when each length of time and the version have a place in the
format and the quotes of the owner can be counted, and what is written is read as the same
configuration (`write_read_start`):

| value | written | read |
| --- | --- | --- |
| owner | a text in one of four forms | whatever its characters |
| length of time, version | a number of up to 63 bits | the number |
| amount | a number of up to 63 bits, or the text of its digits | either |

Reading checks the parameters, writing does not. So unsound parameters are written, and refused when
they are read.
-/

import Mathlib.Data.String.Basic
import TokenGovernance.Config.Start
import TokenGovernance.Config.Text
import TokenGovernance.Proofs.Amendment
import TokenGovernance.Proofs.Fields
import TokenGovernance.Proofs.Procedure
import TokenGovernance.Proofs.Toml.Document

namespace TokenGovernance
namespace Config

open TextReader

variable {rest : List Char} {p : Parameters} {c : Config} {text : String}

/-! ## Values -/

/-- A value and what is written for it. -/
abbrev Written := String × Toml.Value

/-- A whole number. -/
def wordWritten (q : Quantity 64) : Written := (q.val.repr, .integer q.val)

/-- An amount, as a number or as a text. -/
def amountWritten (a : Amount) : Written :=
  if a.isNumber then (a.val.repr, .integer a.val)
  else (String.ofList (Toml.quote a.val.repr.toList), .text a.val.repr)

/-- At the end of a line a value is read from what is written for it, and nothing of that counts as
blanks in front of it. -/
def ReadsValue (w : Written) : Prop :=
  (∀ rest, Takes Toml.blanks [' '] (w.1.toList ++ rest) ()) ∧
    ∀ rest, Toml.LineEnds rest → Takes Toml.simple w.1.toList rest w.2

/-- One blank in front of something else. -/
theorem takes_blank {cs : List Char} {c : Char} {more : List Char} (hcs : cs = c :: more)
    (hc : c ≠ ' ' ∧ c ≠ '\t') (rest : List Char) : Takes Toml.blanks [' '] (cs ++ rest) () := by
  rw [hcs]
  exact takes_dropWhile (by simp) (forall_head?_cons.2 (by simp [hc]))

/-- A number of up to 63 bits is read back: its digits end where the line does. -/
theorem readsValue_integer {n : Nat} (h : n ≤ Amount.greatestNumber) :
    ReadsValue (n.repr, .integer n) := by
  have hlt : n < 1 <<< 63 := by
    have hle : n ≤ 1 <<< 63 - 1 := h
    omega
  constructor
  · intro rest
    obtain ⟨d, ds, hd, hdigit⟩ := Numeral.exists_toDigits n
    refine takes_blank (Nat.toList_repr.trans hd) ⟨?_, ?_⟩ rest <;>
      (rintro rfl; cases hdigit)
  · intro rest hrest
    show Takes Toml.simple n.repr.toList rest _
    rw [Nat.toList_repr]
    refine Toml.takes_simple_integer hlt fun c hc => ?_
    rw [hrest c hc]
    rfl

/-- A text is read back from any of its quoted forms, which all begin with a quote. -/
theorem readsValue_text (s : String) :
    ReadsValue (String.ofList (Toml.quote s.toList), .text s) := by
  constructor
  · intro rest
    obtain ⟨c, more, hquote, hc⟩ := Toml.exists_quote s.toList
    refine takes_blank (String.toList_ofList.trans hquote) ?_ rest
    rcases hc with rfl | rfl <;> decide
  · intro rest hrest
    show Takes Toml.simple (String.ofList _).toList rest _
    rw [String.toList_ofList]
    refine Toml.takes_simple_text s fun c hc => ?_
    rw [hrest c hc]
    decide

/-- An amount is read back from either of its two forms. -/
theorem readsValue_amount (a : Amount) : ReadsValue (amountWritten a) := by
  unfold amountWritten
  split
  · rename_i h
    exact readsValue_integer (of_decide_eq_true h)
  · exact readsValue_text _

/-- The amount that a value stands for is the one that it was written for. -/
theorem amount?_amountWritten (a : Amount) : amount? (amountWritten a).2 = some a := by
  unfold amountWritten
  split
  · simp [amount?]
  · exact a.ofText?_repr

/-- The number that a value stands for is the one that it was written for. -/
theorem word?_wordWritten (q : Quantity 64) : word? (wordWritten q).2 = some q := by
  simp [word?, wordWritten]

/-! ## Writing -/

/-- Whether the lengths of time and the version have a place in the format. -/
def Expressible (p : Parameters) : Prop :=
  p.votingDelay.val ≤ Amount.greatestNumber ∧ p.votingPeriod.val ≤ Amount.greatestNumber ∧
    p.executionDelay.val ≤ Amount.greatestNumber ∧ p.version.val ≤ Amount.greatestNumber

/-- Whether the quotes of an account can be counted. -/
def Countable (owner : Account) : Prop :=
  Toml.longestRun '\x22' 0 owner.name.toList ≤ Toml.greatestCount ∧
    Toml.longestRun '\x27' 0 owner.name.toList ≤ Toml.greatestCount

instance : Decidable (Expressible p) := inferInstanceAs (Decidable (_ ∧ _))

instance (owner : Account) : Decidable (Countable owner) := inferInstanceAs (Decidable (_ ∧ _))

/-- An account with `n + 1` quotes in a row. -/
def quoted (n : Nat) : Account where
  name := String.ofList ('c' :: 'i' :: 'v' :: '_' :: List.replicate (n + 1) '\x27')
  isName_name := by
    rw [Account.isName, String.toList_ofList]
    rfl

/-- More quotes than are counted. -/
theorem not_countable_quoted {n : Nat} (h : Toml.greatestCount ≤ n) : ¬Countable (quoted n) := by
  rintro ⟨-, hsingle⟩
  have hrun : n + 1 ≤ Toml.longestRun '\x27' 0 (quoted n).name.toList :=
    calc
      n + 1 = Toml.longestRun '\x27' 0 (List.replicate (n + 1) '\x27') := by
        rw [Toml.longestRun_replicate, Nat.zero_add]
      _ ≤ Toml.longestRun '\x27' 0 ('_' :: _) := Toml.longestRun_zero_le _ _ 0 _ (by decide)
      _ ≤ Toml.longestRun '\x27' 0 ('v' :: _) := Toml.longestRun_zero_le _ _ 0 _ (by decide)
      _ ≤ Toml.longestRun '\x27' 0 ('i' :: _) := Toml.longestRun_zero_le _ _ 0 _ (by decide)
      _ ≤ Toml.longestRun '\x27' 0 ('c' :: _) := Toml.longestRun_zero_le _ _ 0 _ (by decide)
      _ = Toml.longestRun '\x27' 0 (quoted n).name.toList :=
        congrArg _ String.toList_ofList.symm
  omega

/-- The fields of a record with what is written for them. -/
def rows (p : Parameters) : List (String × Written) := p.fields wordWritten amountWritten

/-- Writing never refuses an amount: one that is no number of the format is written as a text. -/
theorem writeAmount_eq (a : Amount) : writeAmount a = .ok (amountWritten a).1 := by
  unfold writeAmount amountWritten
  split <;> rfl

/-- A number of up to 63 bits is written. -/
theorem writeWord_of_le {q : Quantity 64} (h : q.val ≤ Amount.greatestNumber) :
    writeWord q = .ok (wordWritten q).1 :=
  if_pos h

/-- A larger number is refused, and named in the refusal. -/
theorem writeWord_of_lt {q : Quantity 64} (h : Amount.greatestNumber < q.val) :
    writeWord q = .error (.encoding (.outOfRange q.val)) :=
  if_neg (Nat.not_le.2 h)

/-- The fields are written in their order, and the first number that is too large is refused.
Amounts never are. -/
theorem writeParameters_eq (p : Parameters) : writeParameters p = (do
    let delay ← writeWord p.votingDelay
    let period ← writeWord p.votingPeriod
    let execution ← writeWord p.executionDelay
    let version ← writeWord p.version
    return [writeLine Parameter.votingDelay.name delay,
      writeLine Parameter.votingPeriod.name period,
      writeLine Parameter.proposalThreshold.name (amountWritten p.proposalThreshold).1,
      writeLine Parameter.quorumThreshold.name (amountWritten p.quorumThreshold).1,
      writeLine Parameter.executionDelay.name execution,
      writeLine Parameters.versionName version]) := by
  simp only [writeParameters, Parameters.fields, List.mapM_cons, List.mapM_nil, writeAmount_eq]
  cases writeWord p.votingDelay <;> cases writeWord p.votingPeriod <;>
    cases writeWord p.executionDelay <;> cases writeWord p.version <;> rfl

/-- A record whose numbers have a place in the format is written whole, one line a field. -/
theorem writeParameters_of_expressible (h : Expressible p) :
    writeParameters p = .ok ((rows p).map fun row => writeLine row.1 row.2.1) := by
  obtain ⟨hdelay, hperiod, hexecution, hversion⟩ := h
  rw [writeParameters_eq, writeWord_of_le hdelay, writeWord_of_le hperiod,
    writeWord_of_le hexecution, writeWord_of_le hversion]
  rfl

/-- Any other record is refused for a number that has none. -/
theorem writeParameters_of_not_expressible (h : ¬Expressible p) :
    ∃ n, Amount.greatestNumber < n ∧
      writeParameters p = .error (.encoding (.outOfRange n)) := by
  rw [writeParameters_eq]
  rcases Nat.lt_or_ge Amount.greatestNumber p.votingDelay.val with hlt | hdelay
  · exact ⟨_, hlt, by rw [writeWord_of_lt hlt]; rfl⟩
  rcases Nat.lt_or_ge Amount.greatestNumber p.votingPeriod.val with hlt | hperiod
  · exact ⟨_, hlt, by rw [writeWord_of_le hdelay, writeWord_of_lt hlt]; rfl⟩
  rcases Nat.lt_or_ge Amount.greatestNumber p.executionDelay.val with hlt | hexecution
  · exact ⟨_, hlt, by
      rw [writeWord_of_le hdelay, writeWord_of_le hperiod, writeWord_of_lt hlt]
      rfl⟩
  have hlt : Amount.greatestNumber < p.version.val :=
    Nat.not_le.1 fun hversion => h ⟨hdelay, hperiod, hexecution, hversion⟩
  exact ⟨_, hlt, by
    rw [writeWord_of_le hdelay, writeWord_of_le hperiod, writeWord_of_le hexecution,
      writeWord_of_lt hlt]
    rfl⟩

/-- The document of a configuration. -/
def document (c : Config) : String :=
  writeLine ownerKey (String.ofList (Toml.quote c.owner.name.toList)) ++ "\n[" ++ parametersKey ++
    "]\n" ++ String.join ((rows c.parameters).map fun row => writeLine row.1 row.2.1)

/-- **A configuration is written as its document** when its numbers have a place in the format and
the quotes of its owner can be counted. -/
theorem write_of_writable (h : Expressible c.parameters) (hcount : Countable c.owner) :
    c.write = .ok c.document := by
  have hquote : Toml.quote? c.owner.name.toList = some (Toml.quote c.owner.name.toList) :=
    if_pos hcount
  unfold write
  rw [writeParameters_of_expressible h, hquote]
  rfl

/-- A number without a place in the format is refused, whoever the owner is. -/
theorem write_of_not_expressible (h : ¬Expressible c.parameters) :
    ∃ n, Amount.greatestNumber < n ∧ c.write = .error (.refused (.encoding (.outOfRange n))) := by
  obtain ⟨n, hlt, hn⟩ := writeParameters_of_not_expressible h
  refine ⟨n, hlt, ?_⟩
  unfold write
  rw [hn]

/-- Quotes that cannot be counted stop the writing of a record that has passed. -/
theorem write_of_not_countable (h : Expressible c.parameters) (hcount : ¬Countable c.owner) :
    c.write = .error .countOverflow := by
  have hquote : Toml.quote? c.owner.name.toList = none := if_neg hcount
  unfold write
  rw [writeParameters_of_expressible h, hquote]

/-! ## Reading -/

/-- The owner and what is written for it. -/
def ownerWritten (owner : Account) : Written :=
  (String.ofList (Toml.quote owner.name.toList), .text owner.name)

/-- A field of a record as a line. -/
def lineOf (row : String × Written) : List Char × Toml.Line :=
  (row.1.toList ++ [' ', '=', ' '] ++ row.2.1.toList, .entry ⟨[], row.1, row.2.2⟩)

/-- The lines below that of the owner. -/
def linesBelow (p : Parameters) : List (List Char × Toml.Line) :=
  ([], .empty) :: ('[' :: (parametersKey.toList ++ [']']), .header ⟨[], parametersKey, false⟩) ::
    ((rows p).map lineOf ++ [([], .empty)])

/-- A line break may be said to stand in front of each line or behind it. -/
theorem flatMap_lineBreak {α : Type} (text : α → List Char) (as : List α) :
    (as.flatMap fun a => '\n' :: text a) ++ ['\n'] =
      '\n' :: as.flatMap fun a => text a ++ ['\n'] := by
  induction as with
  | nil => rfl
  | cons a as ih => simp [ih]

/-- The characters of a line are those of its name and of its value, around an equals sign. -/
theorem toList_writeLine (name value : String) :
    (writeLine name value).toList = name.toList ++ [' ', '=', ' '] ++ value.toList ++ ['\n'] := by
  simp [writeLine]

/-- The document, line by line. -/
theorem toList_document (c : Config) :
    c.document.toList =
      ownerKey.toList ++ [' ', '=', ' '] ++ (ownerWritten c.owner).1.toList ++
        Toml.furtherLines (linesBelow c.parameters) := by
  have hjoin : (String.join ((rows c.parameters).map fun row => writeLine row.1 row.2.1)).toList =
      (rows c.parameters).flatMap fun row => (lineOf row).1 ++ ['\n'] := by
    rw [String.join_eq, String.toList_ofList, List.map_map, List.flatMap_def]
    exact congrArg List.flatten (List.map_congr_left fun row _ => toList_writeLine row.1 row.2.1)
  have hrows : ((rows c.parameters).map lineOf).flatMap (fun m => '\n' :: m.1) ++ ['\n'] =
      '\n' :: (rows c.parameters).flatMap fun row => (lineOf row).1 ++ ['\n'] := by
    rw [List.flatMap_map]
    exact flatMap_lineBreak (fun row => (lineOf row).1) (rows c.parameters)
  have hfurther : Toml.furtherLines (linesBelow c.parameters) =
      '\n' :: '\n' :: '[' :: (parametersKey.toList ++ [']']) ++
        (((rows c.parameters).map lineOf).flatMap (fun m => '\n' :: m.1) ++ ['\n']) := by
    simp [Toml.furtherLines, linesBelow]
  rw [document, String.toList_append, hjoin, hfurther, hrows]
  simp [toList_writeLine, ownerWritten]

/-- Fields of an expressible record read back, and their names are bare. -/
theorem readsLine_row (h : Expressible p) :
    ∀ row ∈ rows p, Toml.ReadsLine (lineOf row).1 (lineOf row).2 := by
  have hrow : ∀ row ∈ rows p, Toml.IsBare row.1 ∧ ReadsValue row.2 := by
    obtain ⟨hdelay, hperiod, hexecution, hversion⟩ := h
    simp only [rows, Parameters.fields, List.forall_mem_cons]
    exact ⟨⟨by decide, readsValue_integer hdelay⟩, ⟨by decide, readsValue_integer hperiod⟩,
      ⟨by decide, readsValue_amount _⟩, ⟨by decide, readsValue_amount _⟩,
      ⟨by decide, readsValue_integer hexecution⟩, ⟨by decide, readsValue_integer hversion⟩,
      fun row hrow => by cases hrow⟩
  intro row hmem
  obtain ⟨hbare, hblank, hvalue⟩ := hrow row hmem
  exact Toml.readsLine_entry hbare hblank hvalue

/-- The fields of a record as a table. -/
def tableOf (p : Parameters) : Toml.Table := (rows p).map fun row => (row.1, row.2.2)

/-- A record has no field twice, so its lines make a table. -/
theorem nodup_tableOf (p : Parameters) : ((tableOf p).map Prod.fst).Nodup := by
  unfold tableOf
  rw [List.map_map]
  exact Parameters.nodup_names

/-- **What is written stands for the owner and the fields.** -/
theorem parse?_document (h : Expressible c.parameters) :
    Toml.parse? c.document = some [(ownerKey, .text c.owner.name),
      (parametersKey, .table .header (tableOf c.parameters))] := by
  have howner : Toml.ReadsLine
      (ownerKey.toList ++ [' ', '=', ' '] ++ (ownerWritten c.owner).1.toList)
      (.entry ⟨[], ownerKey, .text c.owner.name⟩) :=
    Toml.readsLine_entry (by decide) (readsValue_text _).1 (readsValue_text _).2
  have hfurther : ∀ m ∈ linesBelow c.parameters, Toml.ReadsLine m.1 m.2 := by
    intro m hm
    simp only [linesBelow, List.mem_cons, List.mem_append, List.mem_map, List.not_mem_nil,
      or_false] at hm
    rcases hm with rfl | rfl | ⟨row, hrow, rfl⟩ | rfl
    · exact Toml.readsLine_empty
    · exact Toml.readsLine_header (by decide)
    · exact readsLine_row h row hrow
    · exact Toml.readsLine_empty
  have hmark : ∀ d ∈ c.document.toList.head?, d ≠ '\ufeff' := by
    rw [toList_document]
    exact forall_head?_cons.2 (by decide)
  have hlines := Toml.readAll?_lines (toList_document c) hmark howner hfurther
  have hsnd : (linesBelow c.parameters).map Prod.snd =
      .empty :: .header ⟨[], parametersKey, false⟩ ::
        ((Toml.entriesOf (tableOf c.parameters)).map Toml.Line.entry ++ [.empty]) := by
    simp [linesBelow, Toml.entriesOf, tableOf, lineOf]
  rw [hsnd] at hlines
  refine Toml.parse?_of_lines [(ownerKey, .text c.owner.name)] _ hlines ?_ (nodup_tableOf _)
  show [ownerKey, parametersKey].Nodup
  decide

/-- The table stands for the record. -/
theorem parameters?_tableOf (kind : Toml.TableKind) (p : Parameters) :
    parameters? (.table kind (tableOf p)) = some p := by
  show Parameters.ofFields? word? amount? (fun _ name => (tableOf p).lookup name) = some p
  exact Parameters.ofFields?_fields word?_wordWritten amount?_amountWritten
    fun place name v h => lookup_eq_some_of_mem (nodup_tableOf p) (List.mem_of_getElem? h)

/-- A written configuration is read, and then its parameters are checked. -/
theorem read_document (h : Expressible c.parameters) :
    read c.document = (do c.parameters.validate; return c) := by
  have howner : ofTable? [(ownerKey, .text c.owner.name),
      (parametersKey, .table .header (tableOf c.parameters))] = some c := by
    have hkeys : (parametersKey == ownerKey) = false := by decide
    simp [ofTable?, Toml.Table.get?, List.lookup_cons, hkeys, parameters?_tableOf]
  unfold read
  rw [parse?_document h, Option.bind_some, howner]

/-- The owner of a configuration starts its engine, if the parameters are sound. -/
theorem start_of_validate (h : c.parameters.validate = .ok ()) (host : Host) :
    c.start host = .ok { state := { parameters := c.parameters, initialized := true } } := by
  have howner : (c.ownedHost host).isOwner c.owner = true := beq_self_eq_true c.owner
  have hsetUp : (Engine.setUp (c.ownedHost host) c.owner c.parameters).perform {} =
      (.ok (), { state := { parameters := c.parameters, initialized := true } }) := by
    unfold Engine.setUp
    simp [Procedure.perform_bind, howner, h, Engine.modifyState]
  unfold start
  rw [hsetUp]

/-- What is written is the document, and only if nothing is in the way. -/
theorem write_eq_ok_iff : c.write = .ok text ↔
    Expressible c.parameters ∧ Countable c.owner ∧ c.document = text := by
  constructor
  · intro h
    by_cases hexpressible : Expressible c.parameters
    · by_cases hcount : Countable c.owner
      · rw [write_of_writable hexpressible hcount] at h
        exact ⟨hexpressible, hcount, Except.ok.inj h⟩
      · rw [write_of_not_countable hexpressible hcount] at h
        cases h
    · obtain ⟨n, -, hn⟩ := write_of_not_expressible hexpressible
      rw [hn] at h
      cases h
  · rintro ⟨hexpressible, hcount, rfl⟩
    exact write_of_writable hexpressible hcount

/-- **What is written starts the same engine.** A configuration is written if its numbers have a
place in the format and the quotes of its owner can be counted; a number without a place is refused
first. What is written is read as the configuration, whatever the owner is called, if the parameters
are sound, and refused for their defect if they are not. -/
theorem write_read_start (c : Config) :
    ((∃ text, c.write = .ok text) ↔ Expressible c.parameters ∧ Countable c.owner) ∧
    (¬Expressible c.parameters →
      ∃ n, Amount.greatestNumber < n ∧ c.write = .error (.refused (.encoding (.outOfRange n)))) ∧
    (Expressible c.parameters → ¬Countable c.owner → c.write = .error .countOverflow) ∧
    ∀ text, c.write = .ok text →
      (c.parameters.defect? = none → read text = .ok c ∧
        ∀ host, c.start host =
          .ok { state := { parameters := c.parameters, initialized := true } }) ∧
      ∀ defect, c.parameters.defect? = some defect →
        read text = .error (.invalidParameters (.unsound defect)) := by
  refine ⟨⟨fun ⟨text, h⟩ => ?_, fun h => ⟨_, write_of_writable h.1 h.2⟩⟩,
    write_of_not_expressible, write_of_not_countable, fun text h => ⟨fun hsound => ?_, ?_⟩⟩
  · obtain ⟨hexpressible, hcount, -⟩ := write_eq_ok_iff.1 h
    exact ⟨hexpressible, hcount⟩
  · obtain ⟨hexpressible, -, rfl⟩ := write_eq_ok_iff.1 h
    have hvalid := Parameters.validate_eq_ok_iff.2 hsound
    rw [read_document hexpressible, hvalid]
    exact ⟨rfl, start_of_validate hvalid⟩
  · intro defect hdefect
    obtain ⟨hexpressible, -, rfl⟩ := write_eq_ok_iff.1 h
    rw [read_document hexpressible, Parameters.validate_eq_error_iff.2 ⟨defect, hdefect, rfl⟩]
    rfl

/-- An owner with quotes of both kinds, a line break and a backslash in its name: with the largest
amount as its quorum, with an empty voting window, and with a version that has no place. Another
owner has 256 quotes in a row. -/
theorem write_read_start_of_quotes :
    let owner : Account := ⟨"civ_\x22\x22\x22\n\x27\x27\x27\x5c", by decide⟩
    let sound : Config := { owner, parameters := { quorumThreshold := .greatest } }
    let unsound : Config := { owner, parameters := { votingPeriod := .zero } }
    let large : Config := { owner, parameters := { version := ⟨1 <<< 63, by decide⟩ } }
    let uncounted : Config := { owner := quoted 255 }
    (∃ text, sound.write = .ok text ∧ read text = .ok sound ∧ ∀ host, sound.start host =
      .ok { state := { parameters := sound.parameters, initialized := true } }) ∧
    (∃ text, unsound.write = .ok text ∧
      read text = .error (.invalidParameters (.unsound .emptyPeriod))) ∧
    (∃ n, Amount.greatestNumber < n ∧
      large.write = .error (.refused (.encoding (.outOfRange n)))) ∧
    uncounted.write = .error .countOverflow := by
  intro owner sound unsound large uncounted
  obtain ⟨⟨-, hsound⟩, -, -, hread⟩ := write_read_start sound
  obtain ⟨⟨-, hunsound⟩, -, -, hrefused⟩ := write_read_start unsound
  obtain ⟨text, htext⟩ := hsound (by decide +kernel)
  obtain ⟨other, hother⟩ := hunsound (by decide +kernel)
  exact ⟨⟨text, htext, (hread text htext).1 (by decide +kernel)⟩,
    ⟨other, hother, (hrefused other hother).2 .emptyPeriod (by decide +kernel)⟩,
    (write_read_start large).2.1 (by decide +kernel),
    (write_read_start uncounted).2.2.1 (by decide +kernel) (not_countable_quoted (by decide))⟩

/-- **One quote too many.** The numbers have a place and the parameters are sound, but the name has
256 quotes in a row. -/
theorem not_written_of_many_quotes :
    let c : Config := { owner := quoted 255 }
    Expressible c.parameters ∧ c.parameters.defect? = none ∧ c.write = .error .countOverflow := by
  intro c
  have hexpressible : Expressible c.parameters := by decide +kernel
  exact ⟨hexpressible, by decide +kernel,
    write_of_not_countable hexpressible (not_countable_quoted (by decide))⟩

end Config
end TokenGovernance
