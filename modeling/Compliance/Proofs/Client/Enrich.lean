import Compliance.Client.Enrich
import Compliance.Proofs.Client.Exchange
import Compliance.Proofs.Record

/-!
# What becomes of records

A pass goes through a list of records and asks a session about the evidence in each.  The session
learns as the pass goes on, and its source may fail at any record, so each record is judged against
the session as the records before it have left it.  A record is replaced only once its enrichment is
in hand, and then only under the keys that belong to enrichments.

* `EnrichmentSummary.ofFates` : the summary that some fates add up to.
* `Session.pass` : a pass record by record, without a running summary.
* `Session.Treated` : what becomes of one record, by what its session says about it.
* `Session.PassAccount` : the account of a pass.
* `Session.pass_accounted` : every pass, over every source, goes by that account, and may be cut in
  two at any record.
-/

namespace Compliance

/-! ### Summaries -/

namespace EnrichmentSummary

instance : Add EnrichmentSummary where
  add a b :=
    ⟨a.total + b.total, a.enriched + b.enriched, a.skippedInvalid + b.skippedInvalid,
      a.failed + b.failed⟩

theorem add_def (a b : EnrichmentSummary) :
    a + b =
      ⟨a.total + b.total, a.enriched + b.enriched, a.skippedInvalid + b.skippedInvalid,
        a.failed + b.failed⟩ := rfl

/-- The summary of records with some fates. -/
def ofFates (fates : List RecordFate) : EnrichmentSummary :=
  ⟨fates.length, fates.count .enriched, fates.count .skipped, fates.count .failed⟩

theorem ofFates_append (fates more : List RecordFate) :
    ofFates (fates ++ more) = ofFates fates + ofFates more := by
  simp only [ofFates, List.length_append, List.count_append, add_def]

theorem add_ofFates (s : EnrichmentSummary) (fate : RecordFate) (fates : List RecordFate) :
    s.add fate + ofFates fates = s + ofFates (fate :: fates) := by
  cases fate <;>
    simp [EnrichmentSummary.add, ofFates, add_def, Nat.add_assoc, Nat.add_comm 1]

theorem total_ofFates (fates : List RecordFate) :
    (ofFates fates).total =
      (ofFates fates).enriched + (ofFates fates).skippedInvalid + (ofFates fates).failed := by
  induction fates with
  | nil => rfl
  | cons fate fates ih =>
    simp only [ofFates, List.length_cons, List.count_cons] at ih ⊢
    cases fate <;> simp <;> omega

end EnrichmentSummary

namespace Session

variable {σ : Type} (src : Source σ) (now : Time.Instant)

/-! ### A pass record by record -/

/-- Records and their fates after a pass, and the session that it leaves. -/
def pass : Session σ → List Record → List (Record × RecordFate) × Session σ
  | s, [] => ([], s)
  | s, r :: rs =>
    let (r, fate, s) := s.enrichRecord src now r
    let (rest, s) := pass s rs
    ((r, fate) :: rest, s)

theorem pass_cons (s : Session σ) (r : Record) (rs : List Record) :
    s.pass src now (r :: rs) =
      let t := s.enrichRecord src now r
      ((t.1, t.2.1) :: (t.2.2.pass src now rs).1, (t.2.2.pass src now rs).2) := rfl

/-- **A pass keeps its running summary apart from what it does.** -/
theorem enrichRecords_eq (s : Session σ) (rs : List Record) :
    s.enrichRecords src now rs =
      ((s.pass src now rs).1.map Prod.fst,
        .ofFates ((s.pass src now rs).1.map Prod.snd), (s.pass src now rs).2) := by
  have hgo (summary : EnrichmentSummary) :
      enrichRecords.go src now s summary rs =
        ((s.pass src now rs).1.map Prod.fst,
          summary + .ofFates ((s.pass src now rs).1.map Prod.snd), (s.pass src now rs).2) := by
    induction rs generalizing s summary with
    | nil => rfl
    | cons r rs ih =>
      simp only [enrichRecords.go, ih, pass_cons, List.map_cons,
        EnrichmentSummary.add_ofFates]
  rw [enrichRecords, hgo, EnrichmentSummary.add_def]
  simp

theorem pass_append (s : Session σ) (rs more : List Record) :
    s.pass src now (rs ++ more) =
      ((s.pass src now rs).1 ++ ((s.pass src now rs).2.pass src now more).1,
        ((s.pass src now rs).2.pass src now more).2) := by
  induction rs generalizing s with
  | nil => rfl
  | cons r rs ih => simp only [List.cons_append, pass_cons, ih]

/-- Each record is judged against the session that the records before it leave. -/
theorem getElem?_pass (s : Session σ) (rs : List Record) (i : Nat) :
    (s.pass src now rs).1[i]? =
      rs[i]?.map fun r =>
        let t := (s.pass src now (rs.take i)).2.enrichRecord src now r
        (t.1, t.2.1) := by
  induction rs generalizing s i with
  | nil => rfl
  | cons r rs ih =>
    cases i with
    | zero => rfl
    | succ i =>
      rw [pass_cons, List.getElem?_cons_succ, ih, List.getElem?_cons_succ, List.take_succ_cons,
        pass_cons]

theorem length_pass (s : Session σ) (rs : List Record) :
    (s.pass src now rs).1.length = rs.length := by
  induction rs generalizing s with
  | nil => rfl
  | cons r rs ih => rw [pass_cons, List.length_cons, ih, List.length_cons]

/-! ### One record -/

/-- What becomes of a record in front of a session. -/
inductive Treated (s : Session σ) (r : Record) : Record → RecordFate → Prop where
  /-- A record without evidence stays as it is. -/
  | skipped {e : InputError} (evidence : r.evidence now = .error e) : Treated s r r .skipped
  /-- So does one about whose evidence the session finds out nothing. -/
  | failed {e : Evidence} {err : ClientError} (evidence : r.evidence now = .ok e)
      (retrieved : (s.retrieve src e).1 = .error err) : Treated s r r .failed
  /-- Any other record takes up what the session says about its evidence, with the verdict of its
  own outcome. -/
  | enriched {e : Evidence} {x : Enrichment} {r' : Record} {outcome : String}
      (evidence : r.evidence now = .ok e)
      (retrieved : (s.retrieve src e).1 = .ok x)
      (own : r.attributes.get? Record.evaluationKey = some (.text outcome))
      (verdict : x.verdict = (Evaluation.ofText outcome).verdict)
      (carries : r'.Carries x)
      (besides : r.SameBesides r') : Treated s r r' .enriched

theorem verdict_of_retrieve {s : Session σ} {e : Evidence} {x : Enrichment}
    (h : (s.retrieve src e).1 = .ok x) : x.verdict = e.verdict := by
  change (s.resolve src e.policy).1.map (·.enrich e.verdict) = .ok x at h
  cases hr : (s.resolve src e.policy).1 with
  | error err =>
    rw [hr] at h
    cases h
  | ok o =>
    rw [hr] at h
    injection h with h
    rw [← h]
    rfl

theorem enrichRecord_of_error {s : Session σ} {r : Record} {e : InputError}
    (h : r.evidence now = .error e) : s.enrichRecord src now r = (r, .skipped, s) := by
  simp only [enrichRecord, h]

theorem enrichRecord_of_refused {s s' : Session σ} {r : Record} {e : Evidence}
    {err : ClientError} (h : r.evidence now = .ok e)
    (hx : s.retrieve src e = (.error err, s')) : s.enrichRecord src now r = (r, .failed, s') := by
  simp only [enrichRecord, h, hx]

theorem enrichRecord_of_retrieved {s s' : Session σ} {r : Record} {e : Evidence}
    {x : Enrichment} (h : r.evidence now = .ok e) (hx : s.retrieve src e = (.ok x, s')) :
    s.enrichRecord src now r = (r.enriched x, .enriched, s') := by
  simp only [enrichRecord, h, hx]

/-- The session learns from a record what a retrieval for its evidence teaches it. -/
theorem session_enrichRecord {s : Session σ} {r : Record} {e : Evidence}
    (h : r.evidence now = .ok e) :
    (s.enrichRecord src now r).2.2 = (s.retrieve src e).2 := by
  cases hx : s.retrieve src e with
  | mk answer s' =>
    cases answer with
    | error err => rw [enrichRecord_of_refused src now h hx]
    | ok x => rw [enrichRecord_of_retrieved src now h hx]

theorem treated_enrichRecord (s : Session σ) (r : Record) :
    s.Treated src now r (s.enrichRecord src now r).1 (s.enrichRecord src now r).2.1 := by
  cases he : r.evidence now with
  | error e =>
    rw [enrichRecord_of_error src now he]
    exact .skipped he
  | ok e =>
    cases hx : s.retrieve src e with
    | mk answer s' =>
      have hanswer : (s.retrieve src e).1 = answer := by rw [hx]
      cases answer with
      | error err =>
        rw [enrichRecord_of_refused src now he hx]
        exact .failed he hanswer
      | ok x =>
        obtain ⟨outcome, hown, hevaluation⟩ := Record.exists_evaluation he
        have hverdict : x.verdict = (Evaluation.ofText outcome).verdict := by
          rw [verdict_of_retrieve src hanswer, Evidence.verdict, hevaluation]
        rw [enrichRecord_of_retrieved src now he hx]
        exact .enriched he hanswer hown hverdict (r.carries_enriched x) (r.sameBesides_enriched x)

/-! ### A whole pass -/

/-- What a pass over some records comes to. -/
structure PassAccount (s : Session σ) (rs after : List Record) (summary : EnrichmentSummary)
    (fates : List RecordFate) : Prop where
  /-- No record is dropped, and none is added. -/
  length : after.length = rs.length
  /-- A record is treated in its place, in front of the session that the records before it leave. -/
  treated : ∀ (i : Nat) (r : Record), rs[i]? = some r →
    ∃ r' fate, after[i]? = some r' ∧ fates[i]? = some fate ∧
      (s.enrichRecords src now (rs.take i)).2.2.Treated src now r r' fate
  fates_length : fates.length = rs.length
  total : summary.total = rs.length
  enriched : summary.enriched = fates.count .enriched
  skippedInvalid : summary.skippedInvalid = fates.count .skipped
  failed : summary.failed = fates.count .failed
  /-- Each record is counted once. -/
  partition : summary.total = summary.enriched + summary.skippedInvalid + summary.failed

theorem account_of_pass (s : Session σ) (rs : List Record) :
    PassAccount src now s rs ((s.pass src now rs).1.map Prod.fst)
      (.ofFates ((s.pass src now rs).1.map Prod.snd)) ((s.pass src now rs).1.map Prod.snd) where
  length := by rw [List.length_map, length_pass]
  treated i r hr := by
    let t := (s.pass src now (rs.take i)).2
    have hpass : (s.pass src now rs).1[i]? =
        some ((t.enrichRecord src now r).1, (t.enrichRecord src now r).2.1) := by
      rw [getElem?_pass, hr]
      rfl
    refine ⟨(t.enrichRecord src now r).1, (t.enrichRecord src now r).2.1, ?_, ?_, ?_⟩
    · rw [List.getElem?_map, hpass]
      rfl
    · rw [List.getElem?_map, hpass]
      rfl
    · rw [enrichRecords_eq]
      exact treated_enrichRecord src now t r
  fates_length := by rw [List.length_map, length_pass]
  total := by rw [EnrichmentSummary.ofFates, List.length_map, length_pass]
  enriched := rfl
  skippedInvalid := rfl
  failed := rfl
  partition := EnrichmentSummary.total_ofFates _

/-- **No record is lost or spoilt.**  Every pass, over every source and with every cache to start
from, goes by its account: the records keep their places, a record without evidence or without an
answer stays as it is, and any other changes only under the keys of enrichments, where it carries
its own answer; the summary counts the records by what became of them.  And a pass over two lists is
a pass over the first and then one over the second, with their counts added. -/
theorem pass_accounted (s : Session σ) (rs : List Record) :
    (∃ fates : List RecordFate,
      PassAccount src now s rs (s.enrichRecords src now rs).1 (s.enrichRecords src now rs).2.1
        fates) ∧
    ∀ more : List Record, s.enrichRecords src now (rs ++ more) =
      let first := s.enrichRecords src now rs
      let second := first.2.2.enrichRecords src now more
      (first.1 ++ second.1, first.2.1 + second.2.1, second.2.2) := by
  constructor
  · rw [enrichRecords_eq]
    exact ⟨_, account_of_pass src now s rs⟩
  · intro more
    simp only [enrichRecords_eq, pass_append, List.map_append, EnrichmentSummary.ofFates_append]

end Session

end Compliance
