import Compliance.Proofs.Identifier
import Compliance.Proofs.Record

/-!
# The evidence that records carry

A record carries evidence if it says something under each of three keys.  What it says names a rule,
an engine and an outcome, and it says something only with a character that is not blank.  The texts
that are too blank for an identifier are therefore those that are refused before one is made of
them, so a record without evidence is always one that lacks an attribute.

* `Record.Says` : the text that a record has under a key.
* `Record.identifier_eq_error_iff` : an identifier is never refused for being blank.
* `Evaluation.Means` : the outcome that a word stands for.
* `Record.Attests` : evidence as the texts of a record give it.
* `Record.FirstSilent` : the first key under which a record says nothing.
* `Record.evidence_account` : which records carry evidence, which evidence, and what the others
  lack.
-/

namespace Compliance

open Compliance.Text (trim isBlank isBlankText)

/-! ### Words for outcomes -/

namespace Evaluation

/-- The outcome that a word stands for: the one of this name, blanks around the word aside, and the
unknown one for a word that is no name. -/
inductive Means (s : String) : Evaluation → Prop where
  | named {o : Evaluation} (h : o.name = trim s) : Means s o
  | other (h : ∀ o : Evaluation, o.name ≠ trim s) : Means s unknown

theorem ofText_of_name_eq {s : String} {o : Evaluation} (h : o.name = trim s) : ofText s = o := by
  have htrim : ofText s = ofText (trim s) := by
    rw [ofText, ofText, Text.trim_trim]
  rw [htrim, ← h, ofText_name]

theorem ofText_of_forall_ne {s : String} (h : ∀ o : Evaluation, o.name ≠ trim s) :
    ofText s = unknown := by
  have hnone : all.find? (fun o => o.name == trim s) = none := by
    rw [List.find?_eq_none]
    intro o _
    simpa using h o
  rw [ofText, hnone, Option.getD_none]

theorem ofText_eq_iff {s : String} {o : Evaluation} : ofText s = o ↔ Means s o := by
  constructor
  · rintro rfl
    by_cases h : ∃ o : Evaluation, o.name = trim s
    · obtain ⟨o, ho⟩ := h
      rw [ofText_of_name_eq ho]
      exact .named ho
    · have hnone : ∀ o : Evaluation, o.name ≠ trim s := fun o ho => h ⟨o, ho⟩
      rw [ofText_of_forall_ne hnone]
      exact .other hnone
  · rintro (h | h)
    · exact ofText_of_name_eq h
    · exact ofText_of_forall_ne h

end Evaluation

/-! ### Texts under keys -/

theorem Text.isBlankText_eq_false_iff {s : String} :
    isBlankText s = false ↔ ∃ c ∈ s.toList, isBlank c = false := by
  have hblank : isBlankText s = true ↔ ∀ c ∈ s.toList, isBlank c := by
    rw [isBlankText, beq_iff_eq, trim_eq_empty_iff]
  rw [← Bool.not_eq_true, hblank]
  simp

namespace Record

variable {r : Record} {key s : String} {kind : IdentifierKind} {err : InputError}

/-- Under a key a record has a text, and not all of it is blank. -/
def Says (r : Record) (key s : String) : Prop :=
  r.attributes.get? key = some (.text s) ∧ ∃ c ∈ s.toList, isBlank c = false

theorem usableText_says_iff : r.usableText key = .ok s ↔ r.Says key s := by
  rw [usableText_eq_ok_iff, Text.isBlankText_eq_false_iff, Says]

theorem usableText_eq_error_iff :
    r.usableText key = .error err ↔ (∀ s, ¬ r.Says key s) ∧ err = .missingAttribute key := by
  have herror : ∀ e, r.usableText key = .error e → e = .missingAttribute key := by
    intro e he
    unfold usableText at he
    repeat' split at he
    all_goals cases he
    all_goals rfl
  simp only [← usableText_says_iff]
  cases h : r.usableText key with
  | ok s => simp
  | error e => simp [herror e h, eq_comm]

theorem Says.trim_ne_empty (h : r.Says key s) : trim s ≠ "" := by
  obtain ⟨-, c, hc, hblank⟩ := h
  rw [ne_eq, Text.trim_eq_empty_iff]
  intro hall
  rw [hall c hc] at hblank
  cases hblank

/-- The identifier that a record gives under a key. -/
def identifier (r : Record) (kind : IdentifierKind) (key : String) :
    Except InputError (Identifier kind) := do
  Identifier.ofText kind (← r.usableText key)

theorem identifier_eq_ok_iff {a : Identifier kind} :
    r.identifier kind key = .ok a ↔ ∃ s, r.Says key s ∧ a.text = trim s := by
  simp only [identifier, Codec.bind_eq_ok_iff, usableText_says_iff,
    Identifier.ofText_eq_ok_iff]
  exact exists_congr fun s => and_congr_right fun hs => and_iff_right hs.trim_ne_empty

/-- **An identifier is never refused for being blank**, since a blank text does not get that far. -/
theorem identifier_eq_error_iff :
    r.identifier kind key = .error err ↔ (∀ s, ¬ r.Says key s) ∧ err = .missingAttribute key := by
  rw [identifier, Codec.bind_eq_error_iff, usableText_eq_error_iff]
  refine or_iff_left ?_
  rintro ⟨s, hs, herror⟩
  obtain ⟨a, ha⟩ := Identifier.exists_ofText kind (usableText_says_iff.mp hs).trim_ne_empty
  rw [ha] at herror
  cases herror

theorem exists_identifier_iff (kind : IdentifierKind) :
    (∃ a, r.identifier kind key = .ok a) ↔ ∃ s, r.Says key s := by
  simp only [identifier_eq_ok_iff]
  constructor
  · rintro ⟨a, s, hs, -⟩
    exact ⟨s, hs⟩
  · rintro ⟨s, hs⟩
    obtain ⟨a, ha⟩ := Identifier.exists_ofText kind hs.trim_ne_empty
    exact ⟨a, s, hs, Identifier.text_of_ofText ha⟩

/-! ### Whole records -/

/-- The keys of evidence, in the order in which a record is asked for them. -/
def evidenceKeys : List String := [ruleKey, engineKey, evaluationKey]

/-- A record is asked for a rule, an engine and an outcome, in this order. -/
theorem evidence_eq_identifiers (r : Record) (now : Time.Instant) :
    r.evidence now = do
      let rule ← r.identifier .rule ruleKey
      let engine ← r.identifier .engine engineKey
      let w ← r.usableText evaluationKey
      return ⟨⟨engine, rule⟩, Evaluation.ofText w, r.timestamp.getD now⟩ := by
  simp only [evidence, identifier, bind_assoc]

/-- Evidence as the texts of a record give it: the rule and the engine with these texts, blanks
around them aside, the outcome that the word stands for, and the record's own time if it has one. -/
structure Attests (r : Record) (now : Time.Instant) (e : Evidence) : Prop where
  rule : ∃ s, r.Says ruleKey s ∧ e.policy.rule.text = trim s
  engine : ∃ s, r.Says engineKey s ∧ e.policy.engine.text = trim s
  evaluation : ∃ s, r.Says evaluationKey s ∧ Evaluation.Means s e.evaluation
  time : e.observedAt = r.timestamp.getD now

theorem evidence_eq_ok_iff_attests {now : Time.Instant} {e : Evidence} :
    r.evidence now = .ok e ↔ r.Attests now e := by
  rw [evidence_eq_identifiers]
  simp only [Codec.bind_eq_ok_iff, identifier_eq_ok_iff, usableText_says_iff]
  constructor
  · rintro ⟨rule, hrule, engine, hengine, w, hw, he⟩
    obtain rfl := Except.ok.inj he
    exact ⟨hrule, hengine, ⟨w, hw, Evaluation.ofText_eq_iff.mp rfl⟩, rfl⟩
  · rintro ⟨hrule, hengine, ⟨w, hw, hmeans⟩, htime⟩
    refine ⟨_, hrule, _, hengine, w, hw, ?_⟩
    rw [Evaluation.ofText_eq_iff.mpr hmeans, ← htime]
    rfl

/-- The first of the keys of evidence under which a record says nothing. -/
def FirstSilent (r : Record) (key : String) : Prop :=
  ∃ before after, evidenceKeys = before ++ key :: after ∧ (∀ k ∈ before, ∃ s, r.Says k s) ∧
    ∀ s, ¬ r.Says key s

theorem firstSilent_iff :
    r.FirstSilent key ↔
      ((∀ s, ¬ r.Says ruleKey s) ∧ key = ruleKey) ∨
      ((∃ s, r.Says ruleKey s) ∧ (∀ s, ¬ r.Says engineKey s) ∧ key = engineKey) ∨
      ((∃ s, r.Says ruleKey s) ∧ (∃ s, r.Says engineKey s) ∧ (∀ s, ¬ r.Says evaluationKey s) ∧
        key = evaluationKey) := by
  constructor
  · rintro ⟨before, after, hkeys, hbefore, hkey⟩
    match before, hkeys, hbefore with
    | [], hkeys, _ =>
      obtain ⟨rfl, -⟩ := List.cons.inj hkeys
      exact .inl ⟨hkey, rfl⟩
    | [_], hkeys, hbefore =>
      simp only [evidenceKeys, List.cons_append, List.nil_append, List.cons.injEq] at hkeys
      obtain ⟨rfl, rfl, -⟩ := hkeys
      exact .inr (.inl ⟨hbefore _ (by simp), hkey, rfl⟩)
    | [_, _], hkeys, hbefore =>
      simp only [evidenceKeys, List.cons_append, List.nil_append, List.cons.injEq] at hkeys
      obtain ⟨rfl, rfl, rfl, -⟩ := hkeys
      exact .inr (.inr ⟨hbefore _ (by simp), hbefore _ (by simp), hkey, rfl⟩)
    | _ :: _ :: _ :: _, hkeys, _ => simp [evidenceKeys] at hkeys
  · rintro (⟨hkey, rfl⟩ | ⟨hrule, hkey, rfl⟩ | ⟨hrule, hengine, hkey, rfl⟩)
    · exact ⟨[], [engineKey, evaluationKey], rfl, by simp, hkey⟩
    · exact ⟨[ruleKey], [evaluationKey], rfl, by simpa using hrule, hkey⟩
    · exact ⟨[ruleKey, engineKey], [], rfl, by simpa using ⟨hrule, hengine⟩, hkey⟩

/-- **What a record without evidence lacks** is the first of the keys under which it says nothing.
-/
theorem evidence_eq_error_iff {now : Time.Instant} :
    r.evidence now = .error err ↔ ∃ key, r.FirstSilent key ∧ err = .missingAttribute key := by
  rw [evidence_eq_identifiers]
  simp only [firstSilent_iff]
  constructor
  · intro h
    rcases Codec.bind_eq_error_iff.mp h with h | ⟨rule, hrule, h⟩
    · obtain ⟨hsilent, herr⟩ := identifier_eq_error_iff.mp h
      exact ⟨ruleKey, .inl ⟨hsilent, rfl⟩, herr⟩
    have hrule := (exists_identifier_iff .rule).mp ⟨rule, hrule⟩
    rcases Codec.bind_eq_error_iff.mp h with h | ⟨engine, hengine, h⟩
    · obtain ⟨hsilent, herr⟩ := identifier_eq_error_iff.mp h
      exact ⟨engineKey, .inr (.inl ⟨hrule, hsilent, rfl⟩), herr⟩
    have hengine := (exists_identifier_iff .engine).mp ⟨engine, hengine⟩
    rcases Codec.bind_eq_error_iff.mp h with h | ⟨w, -, h⟩
    · obtain ⟨hsilent, herr⟩ := usableText_eq_error_iff.mp h
      exact ⟨evaluationKey, .inr (.inr ⟨hrule, hengine, hsilent, rfl⟩), herr⟩
    · cases h
  · rintro ⟨key, ⟨hsilent, rfl⟩ | ⟨hrule, hsilent, rfl⟩ | ⟨hrule, hengine, hsilent, rfl⟩, rfl⟩
    · exact Codec.bind_eq_error_iff.mpr (.inl (identifier_eq_error_iff.mpr ⟨hsilent, rfl⟩))
    · obtain ⟨rule, hrule⟩ := (exists_identifier_iff .rule).mpr hrule
      rw [hrule, Codec.ok_bind]
      exact Codec.bind_eq_error_iff.mpr (.inl (identifier_eq_error_iff.mpr ⟨hsilent, rfl⟩))
    · obtain ⟨rule, hrule⟩ := (exists_identifier_iff .rule).mpr hrule
      obtain ⟨engine, hengine⟩ := (exists_identifier_iff .engine).mpr hengine
      rw [hrule, Codec.ok_bind, hengine, Codec.ok_bind]
      exact Codec.bind_eq_error_iff.mpr (.inl (usableText_eq_error_iff.mpr ⟨hsilent, rfl⟩))

/-- **Which records carry evidence, and which evidence.**  A record carries evidence exactly if it
has a text that is not all blank under each of the three keys, whatever else it holds.  The evidence
is that of these texts: the ids are trimmed, the outcome is the one that the word stands for, be it
`unknown` for want of a name, and the time is the record's own if it has one.  A record without
evidence is refused for the first key under which it says nothing, and never for a blank
identifier. -/
theorem evidence_account (r : Record) (now : Time.Instant) :
    ((∃ e, r.evidence now = .ok e) ↔ ∀ key ∈ evidenceKeys, ∃ s, r.Says key s) ∧
    (∀ e, r.evidence now = .ok e ↔ r.Attests now e) ∧
    (∀ err, r.evidence now = .error err ↔
      ∃ key, r.FirstSilent key ∧ err = .missingAttribute key) ∧
    ∀ kind, r.evidence now ≠ .error (.blankIdentifier kind) := by
  refine ⟨?_, fun e => evidence_eq_ok_iff_attests, fun err => evidence_eq_error_iff, ?_⟩
  · constructor
    · rintro ⟨e, he⟩
      obtain ⟨⟨rule, hrule, -⟩, ⟨engine, hengine, -⟩, ⟨w, hw, -⟩, -⟩ :=
        evidence_eq_ok_iff_attests.mp he
      simp only [evidenceKeys, List.forall_mem_cons, List.not_mem_nil, false_implies, implies_true,
        and_true]
      exact ⟨⟨rule, hrule⟩, ⟨engine, hengine⟩, ⟨w, hw⟩⟩
    · intro h
      cases he : r.evidence now with
      | ok e => exact ⟨e, rfl⟩
      | error err =>
        obtain ⟨key, ⟨before, after, hkeys, -, hsilent⟩, -⟩ := evidence_eq_error_iff.mp he
        obtain ⟨s, hs⟩ := h key (by rw [hkeys]; simp)
        exact absurd hs (hsilent s)
  · intro kind h
    obtain ⟨key, -, herr⟩ := evidence_eq_error_iff.mp h
    cases herr

end Record

end Compliance
