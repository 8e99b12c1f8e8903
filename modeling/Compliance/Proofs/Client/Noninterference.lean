import Compliance.Proofs.Client.Fetch

/-!
# Verdicts apart from metadata

A cache whose entries never expire is sound only if no entry depends on how an evaluation went.
This file compares two runs of a session whose evidence is for the same policies but has other
outcomes and times.  The session asks its source for the same policies in both, keeps the same
entries and reports the same errors and counts; its user sees a difference in the verdicts alone,
and sees one exactly where the two outcomes belong to different classes.

* `OutcomeClass` : the four classes of words for outcomes, `OutcomeClass.verdict_ofText` : they are
  what verdicts tell apart.
* `Enrichment.ApartFrom` : enrichments that differ in their verdicts at most.
* `Record.Alike`, `Record.Alike.evidence` : records with evidence for the same policy.
* `Session.TreatedAlike` : what becomes of two such records, by the fate that both have.
* `Session.retrieve_alike`, `Session.enrichRecord_alike`, `Session.use_alike` : a retrieval, a
  record and one use of two runs.
* `Session.Turn`, `Session.trace` : what the uses of a run come to, one by one.
* `Session.verdicts_apart` : whole runs, over every source.

The proof of a step looks at the session alone: a retrieval resolves the policy, which is the same
in both runs, before it looks at the outcome.  Records take longer, since a record may also fail to
carry evidence, and then has to do so in both runs for the same reason.
-/

namespace Compliance

open Compliance.Text (trim isBlankText)

/-! ### Classes of outcomes -/

/-- What the outcome of an evaluation comes to. -/
inductive OutcomeClass where
  | passed
  | failed
  /-- The rule was not run, or does not apply. -/
  | unevaluated
  /-- Any other word. -/
  | other
  deriving DecidableEq, Repr

namespace OutcomeClass

/-- The class of a word, blanks around it aside. -/
def ofText (s : String) : OutcomeClass :=
  if trim s = "Passed" then passed
  else if trim s = "Failed" then failed
  else if trim s = "Not Run" ∨ trim s = "Not Applicable" then unevaluated
  else other

/-- The verdict of a class. -/
def verdict : OutcomeClass → Verdict
  | passed => .compliant
  | failed => .nonCompliant
  | unevaluated => .notApplicable
  | other => .unknown

theorem verdict_inj {c c' : OutcomeClass} : c.verdict = c'.verdict ↔ c = c' := by
  cases c <;> cases c' <;> decide

/-- **The verdict on a word is that of its class.** -/
theorem verdict_ofText (s : String) : (Evaluation.ofText s).verdict = (ofText s).verdict := by
  unfold Evaluation.ofText ofText
  generalize trim s = w
  by_cases hpassed : w = "Passed"
  · subst hpassed; rfl
  by_cases hfailed : w = "Failed"
  · subst hfailed; rfl
  by_cases hrun : w = "Not Run"
  · subst hrun; rfl
  by_cases happlicable : w = "Not Applicable"
  · subst happlicable; rfl
  -- the two words that are left have the verdict of the words outside the vocabulary
  by_cases hreview : w = "Needs Review"
  · subst hreview; rfl
  by_cases hunknown : w = "Unknown"
  · subst hunknown; rfl
  have hnone : Evaluation.all.find? (fun e => e.name == w) = none := by
    rw [List.find?_eq_none]
    intro e _ he
    have hw : e.name = w := beq_iff_eq.mp he
    cases e with
    | passed => exact hpassed hw.symm
    | failed => exact hfailed hw.symm
    | notRun => exact hrun hw.symm
    | notApplicable => exact happlicable hw.symm
    | needsReview => exact hreview hw.symm
    | unknown => exact hunknown hw.symm
  rw [hnone, if_neg hpassed, if_neg hfailed, if_neg (not_or.mpr ⟨hrun, happlicable⟩)]
  rfl

theorem verdict_evidence (e : Evidence) : e.verdict = (ofText e.evaluation.name).verdict := by
  rw [← verdict_ofText, Evaluation.ofText_name]
  rfl

end OutcomeClass

/-- Two enrichments that differ in their verdicts at most, and do so exactly if the words for their
outcomes belong to different classes. -/
structure Enrichment.ApartFrom (w w' : String) (x x' : Enrichment) : Prop where
  metadata : x.metadata = x'.metadata
  status : x.status = x'.status
  verdict : x.verdict = x'.verdict ↔ OutcomeClass.ofText w = OutcomeClass.ofText w'

theorem Resolution.apartFrom_enrich (o : Resolution) {w w' : String} {v v' : Verdict}
    (hv : v = (OutcomeClass.ofText w).verdict) (hv' : v' = (OutcomeClass.ofText w').verdict) :
    Enrichment.ApartFrom w w' (o.enrich v) (o.enrich v') := by
  have hverdict : v = v' ↔ OutcomeClass.ofText w = OutcomeClass.ofText w' := by
    rw [hv, hv', OutcomeClass.verdict_inj]
  exact ⟨rfl, rfl, hverdict⟩

/-- **A resolver that judges evidence by its outcome tells two pieces of evidence for one policy
apart by their verdicts alone.** -/
theorem Resolver.apartFrom_enrich {r : Resolver} (hr : r.verdict = Evidence.verdict)
    (stores : Stores) (scope : Scope) {e e' : Evidence} (h : e.policy = e'.policy) :
    Enrichment.ApartFrom e.evaluation.name e'.evaluation.name (r.enrich stores e scope)
      (r.enrich stores e' scope) := by
  rw [Resolver.enrich, Resolver.enrich, h, hr]
  exact Resolution.apartFrom_enrich _ (OutcomeClass.verdict_evidence e)
    (OutcomeClass.verdict_evidence e')

/-! ### Records -/

namespace Record

/-- Two records that differ in their times at most, and in the words for their outcomes, neither of
which is blank. -/
structure Alike (r r' : Record) : Prop where
  others : ∀ k, k ≠ evaluationKey → r'.attributes.get? k = r.attributes.get? k
  outcome : r'.attributes.get? evaluationKey = r.attributes.get? evaluationKey ∨
    ∃ w w', r.attributes.get? evaluationKey = some (.text w) ∧ isBlankText w = false ∧
      r'.attributes.get? evaluationKey = some (.text w') ∧ isBlankText w' = false

/-- Two records hold the same under the keys of enrichments, the verdict aside, and the same verdict
exactly if the words for their outcomes belong to one class. -/
structure ApartFrom (w w' : String) (t t' : Record) : Prop where
  same : ∀ k ∈ complianceKeys, k ≠ verdictKey → t.attributes.get? k = t'.attributes.get? k
  verdict : t.attributes.get? verdictKey = t'.attributes.get? verdictKey ↔
    OutcomeClass.ofText w = OutcomeClass.ofText w'

variable {r r' : Record}

theorem usableText_congr {key : String}
    (h : r'.attributes.get? key = r.attributes.get? key) :
    r'.usableText key = r.usableText key := by
  rw [usableText, usableText, h]

/-- The policy that a record's evidence is for. -/
def policy (r : Record) : Except InputError PolicyRef := do
  let rule ← Identifier.ofText .rule (← r.usableText ruleKey)
  let engine ← Identifier.ofText .engine (← r.usableText engineKey)
  return ⟨engine, rule⟩

/-- A record is asked for its policy before it is asked for an outcome. -/
theorem evidence_eq (r : Record) (now : Time.Instant) :
    r.evidence now = do
      let p ← r.policy
      let w ← r.usableText evaluationKey
      return ⟨p, Evaluation.ofText w, r.timestamp.getD now⟩ := by
  simp only [evidence, policy, bind_assoc, pure_bind]

theorem Alike.policy_eq (h : r.Alike r') : r'.policy = r.policy := by
  rw [policy, policy, usableText_congr (h.others ruleKey (by decide)),
    usableText_congr (h.others engineKey (by decide))]

/-- **Records that are alike carry evidence for the same policy**, or carry none for the same
reason. -/
theorem Alike.evidence (h : r.Alike r') (now now' : Time.Instant) :
    (∃ err, r.evidence now = .error err ∧ r'.evidence now' = .error err) ∨
      ∃ e e', r.evidence now = .ok e ∧ r'.evidence now' = .ok e' ∧ e.policy = e'.policy := by
  rw [evidence_eq, evidence_eq, h.policy_eq]
  cases r.policy with
  | error err => exact .inl ⟨err, rfl, rfl⟩
  | ok p =>
    rcases h.outcome with hsame | ⟨w, w', hw, hblank, hw', hblank'⟩
    · rw [usableText_congr hsame]
      cases r.usableText evaluationKey with
      | error err => exact .inl ⟨err, rfl, rfl⟩
      | ok w => exact .inr ⟨_, _, rfl, rfl, rfl⟩
    · rw [usableText_eq_ok_iff.mpr ⟨hw, hblank⟩, usableText_eq_ok_iff.mpr ⟨hw', hblank'⟩]
      exact .inr ⟨_, _, rfl, rfl, rfl⟩

theorem exists_verdict {now : Time.Instant} {e : Evidence} (h : r.evidence now = .ok e) :
    ∃ w, r.attributes.get? evaluationKey = some (.text w) ∧
      e.verdict = (OutcomeClass.ofText w).verdict := by
  obtain ⟨w, hw, hevaluation⟩ := exists_evaluation h
  refine ⟨w, hw, ?_⟩
  rw [Evidence.verdict, hevaluation, OutcomeClass.verdict_ofText]

theorem writtenUnder_congr {x x' : Enrichment} (hmetadata : x.metadata = x'.metadata)
    (hstatus : x.status = x'.status) {k : String} (hk : k ≠ verdictKey) :
    writtenUnder x k = writtenUnder x' k := by
  have hskip (x : Enrichment) : (written x).find? (·.1 = k) = (written x).tail.find? (·.1 = k) := by
    rw [written, List.cons_append, List.find?_cons_of_neg (by simpa using hk.symm)]
    rfl
  have htail : (written x).tail = (written x').tail := by
    simp only [written, List.cons_append, List.tail_cons, hmetadata, hstatus]
  rw [writtenUnder, writtenUnder, hskip, hskip, htail]

theorem Alike.get?_of_mem (h : r.Alike r') {k : String} (hk : k ∈ complianceKeys) :
    r.attributes.get? k = r'.attributes.get? k := by
  have hne : k ≠ evaluationKey := by
    rintro rfl
    exact absurd hk (by decide)
  exact (h.others k hne).symm

theorem Alike.apartFrom_enriched (h : r.Alike r') {w w' : String} {x x' : Enrichment}
    (hx : Enrichment.ApartFrom w w' x x') : ApartFrom w w' (r.enriched x) (r'.enriched x') where
  same k hk hne := by
    rw [get?_enriched, get?_enriched, writtenUnder_congr hx.metadata hx.status hne,
      h.get?_of_mem hk]
  verdict := by
    have hname {v v' : Verdict} : v.name = v'.name ↔ v = v' := by
      refine ⟨fun hv => Option.some.inj ?_, fun hv => by rw [hv]⟩
      rw [← Verdict.named?_name v, hv, Verdict.named?_name]
    rw [(r.carries_enriched x).verdict, (r'.carries_enriched x').verdict, Option.some.injEq,
      AttributeValue.text.injEq, hname, hx.verdict]

end Record

namespace Session

variable {σ : Type} (src : Source σ)

/-! ### One retrieval and one record -/

/-- **A retrieval looks at the policy alone** until it has the metadata: for two pieces of evidence
for one policy it leaves the same session, and either fails with the same error or grades the same
resolution twice. -/
theorem retrieve_alike (s : Session σ) {e e' : Evidence} (h : e.policy = e'.policy) :
    (s.retrieve src e).2 = (s.retrieve src e').2 ∧
      ((∃ err, (s.retrieve src e).1 = .error err ∧ (s.retrieve src e').1 = .error err) ∨
        ∃ o : Resolution, (s.retrieve src e).1 = .ok (o.enrich e.verdict) ∧
          (s.retrieve src e').1 = .ok (o.enrich e'.verdict)) := by
  rw [retrieve, retrieve, h]
  refine ⟨rfl, ?_⟩
  dsimp only
  cases (s.resolve src e'.policy).1 with
  | error err => exact .inl ⟨err, rfl, rfl⟩
  | ok o => exact .inr ⟨o, rfl, rfl⟩

/-- What becomes of two records that are alike, in front of one session.  They have one fate, which
both owe to their own evidence. -/
inductive TreatedAlike (now now' : Time.Instant) (s : Session σ) (r r' : Record) :
    Record → Record → RecordFate → Prop where
  /-- Neither carries evidence, and for the same reason; both stay as they are. -/
  | skipped {err : InputError} (evidence : r.evidence now = .error err)
      (evidence' : r'.evidence now' = .error err) : TreatedAlike now now' s r r' r r' .skipped
  /-- About the evidence of neither the session finds out anything, and for the same reason; both
  stay as they are. -/
  | failed {e e' : Evidence} {err : ClientError} (evidence : r.evidence now = .ok e)
      (evidence' : r'.evidence now' = .ok e') (retrieved : (s.retrieve src e).1 = .error err)
      (retrieved' : (s.retrieve src e').1 = .error err) :
      TreatedAlike now now' s r r' r r' .failed
  /-- Both take up what the session says about their evidence and keep everything else.  They then
  say the same, the verdict aside, and this agrees exactly if their own outcomes are of one class.
  -/
  | enriched {e e' : Evidence} {x x' : Enrichment} {t t' : Record} {w w' : String}
      (evidence : r.evidence now = .ok e) (evidence' : r'.evidence now' = .ok e')
      (retrieved : (s.retrieve src e).1 = .ok x) (retrieved' : (s.retrieve src e').1 = .ok x')
      (own : r.attributes.get? Record.evaluationKey = some (.text w))
      (own' : r'.attributes.get? Record.evaluationKey = some (.text w'))
      (apart : Enrichment.ApartFrom w w' x x')
      (carries : t.Carries x) (carries' : t'.Carries x')
      (besides : r.SameBesides t) (besides' : r'.SameBesides t')
      (written : Record.ApartFrom w w' t t') : TreatedAlike now now' s r r' t t' .enriched

/-- Records that are enriched side by side then say the same, the verdict aside. -/
theorem TreatedAlike.exists_apartFrom {now now' : Time.Instant} {s : Session σ}
    {r r' t t' : Record} (h : s.TreatedAlike src now now' r r' t t' .enriched) :
    ∃ w w', r.attributes.get? Record.evaluationKey = some (.text w) ∧
      r'.attributes.get? Record.evaluationKey = some (.text w') ∧ Record.ApartFrom w w' t t' := by
  cases h with
  | enriched _ _ _ _ own own' _ _ _ _ _ written => exact ⟨_, _, own, own', written⟩

/-- Two records that are alike have the same fate and teach the session the same. -/
theorem enrichRecord_alike (s : Session σ) {r r' : Record} (h : r.Alike r')
    (now now' : Time.Instant) :
    (s.enrichRecord src now r).2 = (s.enrichRecord src now' r').2 ∧
      s.TreatedAlike src now now' r r' (s.enrichRecord src now r).1
        (s.enrichRecord src now' r').1 (s.enrichRecord src now r).2.1 := by
  rcases h.evidence now now' with ⟨err, he, he'⟩ | ⟨e, e', he, he', hpolicy⟩
  · rw [enrichRecord_of_error src now he, enrichRecord_of_error src now' he']
    exact ⟨rfl, .skipped he he'⟩
  · obtain ⟨hsession, hanswers⟩ := s.retrieve_alike src hpolicy
    cases hx : s.retrieve src e with
    | mk answer t =>
      cases hx' : s.retrieve src e' with
      | mk answer' t' =>
        rw [hx, hx'] at hsession hanswers
        obtain rfl : t = t' := hsession
        have hfst : (s.retrieve src e).1 = answer := congrArg Prod.fst hx
        have hfst' : (s.retrieve src e').1 = answer' := congrArg Prod.fst hx'
        rcases hanswers with ⟨err, hanswer, hanswer'⟩ | ⟨o, hanswer, hanswer'⟩
        · obtain rfl : answer = .error err := hanswer
          obtain rfl : answer' = .error err := hanswer'
          rw [enrichRecord_of_refused src now he hx, enrichRecord_of_refused src now' he' hx']
          exact ⟨rfl, .failed he he' hfst hfst'⟩
        · obtain rfl : answer = .ok (o.enrich e.verdict) := hanswer
          obtain rfl : answer' = .ok (o.enrich e'.verdict) := hanswer'
          rw [enrichRecord_of_retrieved src now he hx, enrichRecord_of_retrieved src now' he' hx']
          obtain ⟨w, hw, hverdict⟩ := Record.exists_verdict he
          obtain ⟨w', hw', hverdict'⟩ := Record.exists_verdict he'
          have hapart := o.apartFrom_enrich hverdict hverdict'
          dsimp only
          exact ⟨rfl, .enriched he he' hfst hfst' hw hw' hapart (r.carries_enriched _)
            (r'.carries_enriched _) (r.sameBesides_enriched _) (r'.sameBesides_enriched _)
            (h.apartFrom_enriched hapart)⟩

/-! ### A pass -/

theorem pass_alike (now now' : Time.Instant) {rs rs' : List Record}
    (h : List.Forall₂ Record.Alike rs rs') (s : Session σ) :
    (s.pass src now rs).2 = (s.pass src now' rs').2 ∧
      (s.pass src now rs).1.map Prod.snd = (s.pass src now' rs').1.map Prod.snd := by
  induction h generalizing s with
  | nil => exact ⟨rfl, rfl⟩
  | @cons r r' rs rs' hr _ ih =>
    obtain ⟨hrest, -⟩ := s.enrichRecord_alike src hr now now'
    obtain ⟨hsession, hfates⟩ := ih (s.enrichRecord src now' r').2.2
    simp only [pass_cons, List.map_cons, hrest, hsession, hfates, and_self]

/-- What becomes of two lists of records that are alike: each record is treated like its
counterpart, in front of the session that the records before it leave. -/
structure PassAlike (now now' : Time.Instant) (s : Session σ) (rs rs' ts ts' : List Record)
    (fates : List RecordFate) : Prop where
  length : ts.length = rs.length
  length' : ts'.length = rs'.length
  fates_length : fates.length = rs.length
  treated : ∀ (i : Nat) (r r' : Record), rs[i]? = some r → rs'[i]? = some r' →
    ∃ t t' fate, ts[i]? = some t ∧ ts'[i]? = some t' ∧ fates[i]? = some fate ∧
      (s.enrichRecords src now (rs.take i)).2.2.TreatedAlike src now now' r r' t t' fate

theorem passAlike_pass (now now' : Time.Instant) {rs rs' : List Record}
    (h : List.Forall₂ Record.Alike rs rs') (s : Session σ) :
    s.PassAlike src now now' rs rs' ((s.pass src now rs).1.map Prod.fst)
      ((s.pass src now' rs').1.map Prod.fst) ((s.pass src now rs).1.map Prod.snd) where
  length := by rw [List.length_map, length_pass]
  length' := by rw [List.length_map, length_pass]
  fates_length := by rw [List.length_map, length_pass]
  treated i r r' hr hr' := by
    have hbefore : (s.pass src now (rs.take i)).2 = (s.pass src now' (rs'.take i)).2 :=
      (pass_alike src now now' (List.forall₂_take i h) s).1
    have halike : r.Alike r' := by
      obtain ⟨hi, rfl⟩ := List.getElem?_eq_some_iff.mp hr
      obtain ⟨hi', rfl⟩ := List.getElem?_eq_some_iff.mp hr'
      exact h.get hi hi'
    obtain ⟨-, htreated⟩ := enrichRecord_alike src (s.pass src now (rs.take i)).2 halike now now'
    have hsession : (s.enrichRecords src now (rs.take i)).2.2 = (s.pass src now (rs.take i)).2 := by
      rw [enrichRecords_eq]
    rw [hsession]
    refine ⟨_, _, _, ?_, ?_, ?_, htreated⟩
    · rw [List.getElem?_map, getElem?_pass, hr]
      rfl
    · rw [List.getElem?_map, getElem?_pass, hr', hbefore]
      rfl
    · rw [List.getElem?_map, getElem?_pass, hr]
      rfl

/-! ### Uses -/

/-- Two uses that differ in outcomes and times at most. -/
inductive Use.Alike : Use → Use → Prop where
  | retrieve {e e' : Evidence} (policy : e.policy = e'.policy) :
      Alike (.call (.retrieve e)) (.call (.retrieve e'))
  | prefetch (ps : List PolicyRef) : Alike (.call (.prefetch ps)) (.call (.prefetch ps))
  | resize (n : Nat) : Alike (.call (.resize n)) (.call (.resize n))
  | process (now now' : Time.Instant) {rs rs' : List Record}
      (records : List.Forall₂ Record.Alike rs rs') : Alike (.process now rs) (.process now' rs')

/-- What the session's user sees of a use. -/
inductive Seen where
  | retrieved (answer : Except ClientError Enrichment)
  | prefetched (report : PrefetchReport)
  | processed (rs : List Record) (summary : EnrichmentSummary)
  | nothing

/-- What the user sees of a use in front of a session. -/
def seen (s : Session σ) : Use → Seen
  | .call (.retrieve e) => .retrieved (s.retrieve src e).1
  | .call (.prefetch ps) => .prefetched (s.prefetch src ps).2
  | .call (.resize _) => .nothing
  | .process now rs =>
    .processed (s.enrichRecords src now rs).1 (s.enrichRecords src now rs).2.1

/-- What two users see whose uses of one session are alike: the same, verdicts aside. -/
inductive Seen.Alike (s : Session σ) : Use → Use → Seen → Seen → Prop where
  /-- Both retrievals fail, and for the same reason. -/
  | refused {e e' : Evidence} (err : ClientError) :
      Alike s (.call (.retrieve e)) (.call (.retrieve e')) (.retrieved (.error err))
        (.retrieved (.error err))
  /-- Both succeed, with verdicts that are those of the outcomes. -/
  | retrieved {e e' : Evidence} {x x' : Enrichment}
      (apart : Enrichment.ApartFrom e.evaluation.name e'.evaluation.name x x') :
      Alike s (.call (.retrieve e)) (.call (.retrieve e')) (.retrieved (.ok x))
        (.retrieved (.ok x'))
  | prefetched (ps : List PolicyRef) (report : PrefetchReport) :
      Alike s (.call (.prefetch ps)) (.call (.prefetch ps)) (.prefetched report)
        (.prefetched report)
  | resized (n : Nat) : Alike s (.call (.resize n)) (.call (.resize n)) .nothing .nothing
  /-- Each record is treated like its counterpart, and the counts are those of the fates that both
  have. -/
  | processed {now now' : Time.Instant} {rs rs' ts ts' : List Record} {fates : List RecordFate}
      (pass : s.PassAlike src now now' rs rs' ts ts' fates) :
      Alike s (.process now rs) (.process now' rs') (.processed ts (.ofFates fates))
        (.processed ts' (.ofFates fates))

/-- **One use of two runs**: the session after it is the same, and so is what the user sees, the
verdicts aside. -/
theorem use_alike (s : Session σ) {u u' : Use} (h : u.Alike u') :
    s.use src u = s.use src u' ∧ Seen.Alike src s u u' (s.seen src u) (s.seen src u') := by
  cases h with
  | @retrieve e e' policy =>
    obtain ⟨hsession, hanswers⟩ := s.retrieve_alike src policy
    refine ⟨hsession, ?_⟩
    rcases hanswers with ⟨err, hanswer, hanswer'⟩ | ⟨o, hanswer, hanswer'⟩
    · rw [seen, seen, hanswer, hanswer']
      exact .refused err
    · rw [seen, seen, hanswer, hanswer']
      exact .retrieved (o.apartFrom_enrich (OutcomeClass.verdict_evidence e)
        (OutcomeClass.verdict_evidence e'))
  | prefetch ps => exact ⟨rfl, .prefetched ps _⟩
  | resize n => exact ⟨rfl, .resized n⟩
  | process now now' records =>
    obtain ⟨hsession, hfates⟩ := pass_alike src now now' records s
    simp only [use, seen, enrichRecords_eq, ← hfates]
    exact ⟨hsession, .processed (passAlike_pass src now now' records s)⟩

/-! ### Runs -/

/-- What one use comes to. -/
structure Turn (σ : Type) where
  /-- The session before the use. -/
  before : Session σ
  use : Use
  seen : Seen
  /-- What passes between the session and its source. -/
  exchanges : List Exchange
  /-- The session that the use leaves. -/
  session : Session σ

/-- The turns of a run. -/
def trace : Session σ → List Use → List (Turn σ)
  | _, [] => []
  | s, u :: us =>
    ⟨s, u, s.seen src u, ((s.logged []).use src.logged u).world.2, s.use src u⟩ ::
      trace (s.use src u) us

/-- Turns of two runs that differ in what the users see at most, and there in the verdicts. -/
structure Turn.Alike (t t' : Turn σ) : Prop where
  before : t.before = t'.before
  uses : t.use.Alike t'.use
  seen : Seen.Alike src t.before t.use t'.use t.seen t'.seen
  exchanges : t.exchanges = t'.exchanges
  session : t.session = t'.session

theorem Turn.Alike.exists_passAlike {t t' : Turn σ} (h : t.Alike src t') {now now' : Time.Instant}
    {rs rs' ts ts' : List Record} {summary summary' : EnrichmentSummary}
    (huse : t.use = .process now rs) (huse' : t'.use = .process now' rs')
    (hseen : t.seen = .processed ts summary) (hseen' : t'.seen = .processed ts' summary') :
    ∃ fates, t.before.PassAlike src now now' rs rs' ts ts' fates ∧ summary = .ofFates fates ∧
      summary' = .ofFates fates := by
  have halike := h.seen
  rw [huse, huse', hseen, hseen'] at halike
  cases halike with
  | processed pass => exact ⟨_, pass, rfl, rfl⟩

theorem map_use_trace (s : Session σ) (us : List Use) : (s.trace src us).map Turn.use = us := by
  induction us generalizing s with
  | nil => rfl
  | cons u us ih => rw [trace, List.map_cons, ih]

theorem exists_enrichRecord_logged (now : Time.Instant) (s : Session σ) (r : Record) :
    ∃ xs : List Exchange, ∀ log, (s.logged log).enrichRecord src.logged now r =
      ((s.enrichRecord src now r).1, (s.enrichRecord src now r).2.1,
        (s.enrichRecord src now r).2.2.logged (log ++ xs)) := by
  cases he : r.evidence now with
  | error err =>
    refine ⟨[], fun log => ?_⟩
    rw [enrichRecord_of_error src now he, enrichRecord_of_error src.logged now he, List.append_nil]
  | ok e =>
    obtain ⟨xs, -, hlogged⟩ := s.exists_retrieval src e
    refine ⟨xs, fun log => ?_⟩
    simp only [enrichRecord, he, hlogged log]
    rcases s.retrieve src e with ⟨err | x, t⟩ <;> rfl

theorem exists_pass_logged (now : Time.Instant) (s : Session σ) (rs : List Record) :
    ∃ xs : List Exchange, ∀ log, (s.logged log).pass src.logged now rs =
      ((s.pass src now rs).1, (s.pass src now rs).2.logged (log ++ xs)) := by
  induction rs generalizing s with
  | nil => exact ⟨[], fun log => by rw [List.append_nil]; rfl⟩
  | cons r rs ih =>
    obtain ⟨xs, hrecord⟩ := s.exists_enrichRecord_logged src now r
    obtain ⟨ys, hrest⟩ := ih (s.enrichRecord src now r).2.2
    refine ⟨xs ++ ys, fun log => ?_⟩
    simp only [pass_cons, hrecord, hrest, List.append_assoc]

/-- **A log makes no difference to a use.** -/
theorem use_logged (s : Session σ) (u : Use) (log : List Exchange) :
    (s.logged log).seen src.logged u = s.seen src u ∧
      (s.logged log).use src.logged u =
        (s.use src u).logged (log ++ ((s.logged []).use src.logged u).world.2) := by
  have hexists : ∃ xs : List Exchange, ∀ log, (s.logged log).seen src.logged u = s.seen src u ∧
      (s.logged log).use src.logged u = (s.use src u).logged (log ++ xs) := by
    cases u with
    | call c =>
      cases c with
      | retrieve e =>
        obtain ⟨xs, -, hlogged⟩ := s.exists_retrieval src e
        refine ⟨xs, fun log => ?_⟩
        simp only [seen, use, call, hlogged log, and_self]
      | prefetch ps =>
        refine ⟨(src.exchanges s.world (s.requests ps)).1, fun log => ?_⟩
        simp only [seen, use, call, prefetch_logged, and_self]
      | resize n =>
        refine ⟨[], fun log => ⟨rfl, ?_⟩⟩
        rw [List.append_nil]
        rfl
    | process now rs =>
      obtain ⟨xs, hlogged⟩ := s.exists_pass_logged src now rs
      refine ⟨xs, fun log => ?_⟩
      simp only [seen, use, enrichRecords_eq, hlogged log, and_self]
  obtain ⟨xs, hxs⟩ := hexists
  -- what the log holds after the use, if it is empty before, are the exchanges of the use
  have hempty : ((s.logged []).use src.logged u).world.2 = xs := by
    rw [(hxs []).2, List.nil_append]
    rfl
  rw [hempty]
  exact hxs log

theorem uses_logged (s : Session σ) (us : List Use) (log : List Exchange) :
    (s.logged log).uses src.logged us =
      (s.uses src us).logged (log ++ (s.trace src us).flatMap Turn.exchanges) := by
  induction us generalizing s log with
  | nil =>
    rw [trace, List.flatMap_nil, List.append_nil]
    rfl
  | cons u us ih =>
    show ((s.logged log).use src.logged u).uses src.logged us = _
    rw [(s.use_logged src u log).2, ih, trace, List.flatMap_cons, List.append_assoc]
    rfl

theorem trace_alike {us us' : List Use} (h : List.Forall₂ Use.Alike us us') (s : Session σ) :
    List.Forall₂ (Turn.Alike src) (s.trace src us) (s.trace src us') := by
  induction h generalizing s with
  | nil => exact .nil
  | @cons u u' us us' hu _ ih =>
    obtain ⟨hsession, hseen⟩ := s.use_alike src hu
    obtain ⟨hlogged, -⟩ := (s.logged []).use_alike src.logged hu
    rw [trace, trace, hlogged, hsession]
    exact .cons ⟨rfl, hu, hseen, rfl, rfl⟩ (ih (s.use src u'))

/-- **Verdicts and metadata do not interfere.**  Over every source and from every session, two runs
whose uses differ in outcomes and times at most go side by side: use by use they have the same
exchanges with the source, which are those that a log records, and leave the same session, its cache
included; the users see the same, but for the verdicts, and those are the same exactly if the
outcomes are of one class.  Nor does a resolver that judges evidence by its outcome, under any scope
and over any stores, let the outcome touch more than the verdict. -/
theorem verdicts_apart (s : Session σ) {us us' : List Use} (h : List.Forall₂ Use.Alike us us') :
    List.Forall₂ (Turn.Alike src) (s.trace src us) (s.trace src us') ∧
    (∀ vs ∈ [us, us'], (s.trace src vs).map Turn.use = vs ∧
      ∀ log, (s.logged log).uses src.logged vs =
        (s.uses src vs).logged (log ++ (s.trace src vs).flatMap Turn.exchanges)) ∧
    ∀ (r : Resolver) (stores : Stores) (scope : Scope) (e e' : Evidence),
      r.verdict = Evidence.verdict → e.policy = e'.policy →
        Enrichment.ApartFrom e.evaluation.name e'.evaluation.name (r.enrich stores e scope)
          (r.enrich stores e' scope) := by
  refine ⟨trace_alike src h s, fun vs _ => ?_, fun r stores scope e e' hr hpolicy => ?_⟩
  · exact ⟨map_use_trace src s vs, uses_logged src s vs⟩
  · exact Resolver.apartFrom_enrich hr stores scope hpolicy

/-- A record of an evaluation of one rule, by the word for its outcome. -/
def judged (w : String) : Record :=
  ⟨none, ((Table.empty.insert Record.ruleKey (.text "AC-1")).insert Record.engineKey
    (.text "opa")).insert Record.evaluationKey (.text w)⟩

theorem judged_alike {w w' : String} (hw : isBlankText w = false) (hw' : isBlankText w' = false) :
    (judged w).Alike (judged w') where
  others k hk := by
    rw [judged, Table.get?_insert_of_ne _ _ hk, judged, Table.get?_insert_of_ne _ _ hk]
  outcome := .inr ⟨w, w', Table.get?_insert_self .., hw, Table.get?_insert_self .., hw'⟩

/-- Midnight, before the last day of all. -/
def midnight : Time.Instant :=
  ⟨Time.Instant.latest.date, 0, 0, by decide, by decide, by decide⟩

/-- A retrieval for the rule and then a pass over one record about it. -/
def judgedRun (v : Evaluation) (w : String) (now : Time.Instant) : List Use :=
  [.call (.retrieve ⟨.sample, v, now⟩), .process now [judged w]]

/-- What is seen of the pass: the record has taken up what the session has learned from the
retrieval, with the verdict of its own outcome. -/
theorem seen_judged {v u : Evaluation} {w : String} {now : Time.Instant}
    (he : (judged w).evidence now = .ok ⟨.sample, u, now⟩) :
    let src := about PolicyRef.sample.rule
    ((opened () 1 Nat.one_pos).trace src (judgedRun v w now))[1]?.map Turn.seen =
      some (.processed
        [(judged w).enriched ((Resolution.unmapped PolicyRef.sample.rule).enrich u.verdict)]
        ⟨1, 1, 0, 0⟩) := by
  intro src
  let s := (opened () 1 Nat.one_pos).use src (.call (.retrieve ⟨.sample, v, now⟩))
  have hcached : s.cache.get? PolicyRef.sample.rule = some (.unmapped PolicyRef.sample.rule) :=
    Table.get?_insert_self ..
  have hretrieve := retrieve_of_cached src (e := ⟨.sample, u, now⟩) hcached
  change some (s.seen src (.process now [judged w])) = _
  rw [seen, enrichRecords_eq, pass_cons, enrichRecord_of_retrieved src now he hretrieve]
  rfl

/-- A source that knows about the rule, and outcomes of other classes: one user sees that the rule
is complied with and writes that it is not, the other the reverse and that nothing is known; both
have asked the same, and both records say the same but for the verdict. -/
theorem verdicts_apart_sample :
    let src := about PolicyRef.sample.rule
    let turns := (opened () 1 Nat.one_pos).trace src (judgedRun .passed "Failed" .latest)
    let turns' := (opened () 1 Nat.one_pos).trace src (judgedRun .failed " Error" midnight)
    List.Forall₂ Use.Alike (judgedRun .passed "Failed" .latest)
        (judgedRun .failed " Error" midnight) ∧
      List.Forall₂ (Turn.Alike src) turns turns' ∧
      turns.head?.map Turn.seen = some (.retrieved
        (.ok ((Resolution.unmapped PolicyRef.sample.rule).enrich .compliant))) ∧
      turns'.head?.map Turn.seen = some (.retrieved
        (.ok ((Resolution.unmapped PolicyRef.sample.rule).enrich .nonCompliant))) ∧
      ∃ t t' : Record, turns[1]?.map Turn.seen = some (.processed [t] ⟨1, 1, 0, 0⟩) ∧
        turns'[1]?.map Turn.seen = some (.processed [t'] ⟨1, 1, 0, 0⟩) ∧
        t.attributes.get? Record.verdictKey = some (.text "NON_COMPLIANT") ∧
        t'.attributes.get? Record.verdictKey = some (.text "UNKNOWN") ∧
        ∀ k ∈ Record.complianceKeys, k ≠ Record.verdictKey →
          t.attributes.get? k = t'.attributes.get? k := by
  intro src turns turns'
  have halike : List.Forall₂ Use.Alike (judgedRun .passed "Failed" .latest)
      (judgedRun .failed " Error" midnight) := by
    have hrecord : (judged "Failed").Alike (judged " Error") :=
      judged_alike (by decide) (by decide)
    exact .cons (.retrieve rfl) (.cons (.process _ _ (.cons hrecord .nil)) .nil)
  obtain ⟨hturns, -, -⟩ := verdicts_apart src (opened () 1 Nat.one_pos) halike
  have hseen : turns[1]?.map Turn.seen = _ := seen_judged (u := .failed) (by decide +kernel)
  have hseen' : turns'[1]?.map Turn.seen = _ := seen_judged (u := .unknown) (by decide +kernel)
  refine ⟨halike, hturns, rfl, rfl, _, _, hseen, hseen', ?_, ?_, ?_⟩
  · exact (Record.carries_enriched _ _).verdict
  · exact (Record.carries_enriched _ _).verdict
  · cases hturns with
    | cons _ hturns =>
      cases hturns with
      | cons hpass _ =>
        obtain ⟨fates, halike, hsummary, -⟩ := hpass.exists_passAlike src rfl rfl
          (Option.some.inj hseen) (Option.some.inj hseen')
        obtain ⟨t, t', fate, ht, ht', hfate, htreated⟩ := halike.treated 0 _ _ rfl rfl
        obtain rfl := Option.some.inj ht
        obtain rfl := Option.some.inj ht'
        -- the one record has been counted as enriched
        obtain ⟨f, rfl⟩ := List.length_eq_one_iff.mp halike.fates_length
        obtain rfl := Option.some.inj hfate
        cases f with
        | enriched =>
          obtain ⟨w, w', -, -, hwritten⟩ := htreated.exists_apartFrom
          exact hwritten.same
        | skipped => exact absurd hsummary (by decide)
        | failed => exact absurd hsummary (by decide)

end Session

end Compliance
