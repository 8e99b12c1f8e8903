import Compliance.Proofs.Client.Noninterference

/-!
# A second pass

An enriched record is a record with evidence, and the evidence is the same as before: enrichments
are written under keys of their own.  So a pass over records that have been through one already
finds the same policies in them.  What it finds out about those that were enriched is in the cache,
since an entry is never written over by a later record, and writing it once more changes nothing.

* `Session.Settled` : a record that already carries what the session knows about its evidence.
* `Session.enrichRecord_of_settled` : such a record, and the session, stay as they are.
* `Session.settled_enrichRecord`, `Session.Settled.pass` : a record is settled once it has been
  enriched, and no later record unsettles it.
* `Session.second_pass` : two passes in a row, over every source.

A record about which nothing could be found out is tried again, and that may succeed, so the second
pass as a whole changes nothing only if the first has had no failure.
-/

namespace Compliance

namespace Record

/-! ### The evidence in an enriched record -/

theorem usableText_enriched (r : Record) (x : Enrichment) {key : String}
    (h : key ∉ complianceKeys) : (r.enriched x).usableText key = r.usableText key :=
  usableText_congr ((r.sameBesides_enriched x).others key h)

theorem policy_enriched (r : Record) (x : Enrichment) : (r.enriched x).policy = r.policy := by
  rw [policy, policy, r.usableText_enriched x (by decide), r.usableText_enriched x (by decide)]

theorem enriched_self (r : Record) (x : Enrichment) :
    (r.enriched x).enriched x = r.enriched x := by
  rw [enriched_enriched_iff]
  cases hadvice : x.metadata.remediation with
  | none => exact .inr fun s hs => absurd hs (by simp)
  | some s => exact .inl rfl

theorem evidence_eq_ok_iff {r : Record} {now : Time.Instant} {e : Evidence} :
    r.evidence now = .ok e ↔
      ∃ w, r.policy = .ok e.policy ∧ r.usableText evaluationKey = .ok w ∧
        e = ⟨e.policy, Evaluation.ofText w, r.timestamp.getD now⟩ := by
  rw [evidence_eq]
  simp only [Codec.bind_eq_ok_iff]
  constructor
  · rintro ⟨p, hp, w, hw, he⟩
    injection he with he
    subst he
    exact ⟨w, hp, hw, rfl⟩
  · rintro ⟨w, hp, hw, he⟩
    exact ⟨e.policy, hp, w, hw, congrArg Except.ok he.symm⟩

/-- Whether a record has evidence does not depend on the time it is given. -/
theorem error_of_error {r : Record} {now : Time.Instant} {err : InputError}
    (h : r.evidence now = .error err) (now' : Time.Instant) : r.evidence now' = .error err := by
  rw [evidence_eq] at h ⊢
  cases hp : r.policy with
  | error err' =>
    rw [hp] at h
    exact h
  | ok p =>
    rw [hp] at h
    cases hw : r.usableText evaluationKey with
    | error err' =>
      rw [hw] at h
      exact h
    | ok w =>
      rw [hw] at h
      cases h

end Record

namespace Session

variable {σ : Type} (src : Source σ)

/-! ### Entries stay -/

theorem get?_retrieve_of_cached {s : Session σ} {r : RuleId} {o : Resolution}
    (h : s.cache.get? r = some o) (e : Evidence) :
    (s.retrieve src e).2.cache.get? r = some o := by
  obtain ⟨xs, hretrieval, -⟩ := s.exists_retrieval src e
  generalize s.retrieve src e = result at hretrieval
  cases hretrieval with
  | cached known => exact h
  | fetched unknown opens =>
    -- what is fetched is another rule, since this one is known
    have hne : r ≠ e.policy.rule := by
      rintro rfl
      rw [h] at unknown
      cases unknown
    rw [Table.get?_insert_of_ne _ _ hne]
    exact h
  | refused unknown unanswered => exact h

theorem get?_enrichRecord_of_cached {s : Session σ} {r : RuleId} {o : Resolution}
    (h : s.cache.get? r = some o) (now : Time.Instant) (record : Record) :
    (s.enrichRecord src now record).2.2.cache.get? r = some o := by
  cases he : record.evidence now with
  | error err =>
    rw [enrichRecord_of_error src now he]
    exact h
  | ok e =>
    rw [session_enrichRecord src now he]
    exact get?_retrieve_of_cached src h e

/-! ### Settled records -/

/-- A record carries what the session knows about its evidence. -/
def Settled (s : Session σ) (r : Record) : Prop :=
  ∃ p w o, r.policy = .ok p ∧ r.usableText Record.evaluationKey = .ok w ∧
    s.cache.get? p.rule = some o ∧ r.enriched (o.enrich (Evaluation.ofText w).verdict) = r

/-- **Nothing happens to a settled record**, and the session learns nothing from it. -/
theorem enrichRecord_of_settled {s : Session σ} {r : Record} (h : s.Settled r)
    (now : Time.Instant) : s.enrichRecord src now r = (r, .enriched, s) := by
  obtain ⟨p, w, o, hp, hw, ho, hr⟩ := h
  let e : Evidence := ⟨p, Evaluation.ofText w, r.timestamp.getD now⟩
  have he : r.evidence now = .ok e := Record.evidence_eq_ok_iff.mpr ⟨w, hp, hw, rfl⟩
  have hretrieve : s.retrieve src e = (.ok (o.enrich e.verdict), s) := retrieve_of_cached src ho
  have hverdict : e.verdict = (Evaluation.ofText w).verdict := by rw [Evidence.verdict]
  rw [enrichRecord_of_retrieved src now he hretrieve, hverdict, hr]

theorem settled_enrichRecord {s : Session σ} {r : Record} {now : Time.Instant}
    (h : (s.enrichRecord src now r).2.1 = .enriched) :
    (s.enrichRecord src now r).2.2.Settled (s.enrichRecord src now r).1 := by
  cases he : r.evidence now with
  | error err =>
    rw [enrichRecord_of_error src now he] at h
    cases h
  | ok e =>
    obtain ⟨w, hp, hw, hevidence⟩ := Record.evidence_eq_ok_iff.mp he
    have hverdict : e.verdict = (Evaluation.ofText w).verdict := by
      rw [hevidence, Evidence.verdict]
    -- the enriched record has the same policy and outcome, and the entry for its rule is there
    have hsettled {t : Session σ} {o : Resolution} (ho : t.cache.get? e.policy.rule = some o) :
        t.Settled (r.enriched (o.enrich e.verdict)) := by
      refine ⟨e.policy, w, o, ?_, ?_, ho, ?_⟩
      · rw [r.policy_enriched, hp]
      · rw [r.usableText_enriched _ (by decide), hw]
      · rw [hverdict, r.enriched_self]
    obtain ⟨xs, hretrieval, -⟩ := s.exists_retrieval src e
    cases hx : s.retrieve src e with
    | mk answer t =>
      rw [hx] at hretrieval
      cases hretrieval with
      | cached known =>
        simp only [enrichRecord_of_retrieved src now he hx]
        exact hsettled known
      | fetched unknown opens =>
        simp only [enrichRecord_of_retrieved src now he hx]
        exact hsettled (Table.get?_insert_self ..)
      | refused unknown unanswered =>
        rw [enrichRecord_of_refused src now he hx] at h
        cases h

theorem Settled.enrichRecord {s : Session σ} {r : Record} (h : s.Settled r)
    (now : Time.Instant) (other : Record) : (s.enrichRecord src now other).2.2.Settled r := by
  obtain ⟨p, w, o, hp, hw, ho, hr⟩ := h
  exact ⟨p, w, o, hp, hw, get?_enrichRecord_of_cached src ho now other, hr⟩

theorem Settled.pass {s : Session σ} {r : Record} (h : s.Settled r) (now : Time.Instant)
    (others : List Record) : (s.pass src now others).2.Settled r := by
  induction others generalizing s with
  | nil => exact h
  | cons other others ih => exact ih (h.enrichRecord src now other)

/-! ### After a pass -/

/-- **After a pass the records that it has enriched are settled.** -/
theorem settled_of_mem_pass {s : Session σ} {now : Time.Instant} {rs : List Record} {r : Record}
    (h : (r, .enriched) ∈ (s.pass src now rs).1) : (s.pass src now rs).2.Settled r := by
  induction rs generalizing s with
  | nil => cases h
  | cons r' rs ih =>
    rw [pass_cons] at h
    rcases List.mem_cons.mp h with heq | hrest
    · obtain ⟨rfl, hfate⟩ := Prod.mk.inj heq
      exact (settled_enrichRecord src hfate.symm).pass src now rs
    · exact ih hrest

/-- A record that a pass has skipped has no evidence, whenever it is asked for. -/
theorem error_of_mem_pass {s : Session σ} {now : Time.Instant} {rs : List Record} {r : Record}
    (h : (r, .skipped) ∈ (s.pass src now rs).1) : ∃ err, r.evidence now = .error err := by
  induction rs generalizing s with
  | nil => cases h
  | cons r' rs ih =>
    rw [pass_cons] at h
    rcases List.mem_cons.mp h with heq | hrest
    · obtain ⟨rfl, hfate⟩ := Prod.mk.inj heq
      have htreated := s.treated_enrichRecord src now r'
      rw [← hfate] at htreated
      generalize (s.enrichRecord src now r').1 = r at htreated
      cases htreated with
      | skipped evidence => exact ⟨_, evidence⟩
    · exact ih hrest

/-- A pass over records that all stay as they are leaves the session as it is. -/
theorem pass_of_unchanged {s : Session σ} {now : Time.Instant} {rs : List (Record × RecordFate)}
    (h : ∀ x ∈ rs, s.enrichRecord src now x.1 = (x.1, x.2, s)) :
    s.pass src now (rs.map Prod.fst) = (rs, s) := by
  induction rs with
  | nil => rfl
  | cons x rs ih =>
    obtain ⟨hx, hrs⟩ := List.forall_mem_cons.mp h
    rw [List.map_cons, pass_cons, hx]
    simp only [ih hrs]

theorem enrichRecord_of_mem_pass {s : Session σ} {now : Time.Instant} {rs : List Record}
    (hfailed : ((s.pass src now rs).1.map Prod.snd).count .failed = 0)
    {x : Record × RecordFate} (hx : x ∈ (s.pass src now rs).1) {τ : Type} (src' : Source τ)
    {t : Session τ} (ht : t.cache = (s.pass src now rs).2.cache) (now' : Time.Instant) :
    t.enrichRecord src' now' x.1 = (x.1, x.2, t) := by
  obtain ⟨r, fate⟩ := x
  cases fate with
  | enriched =>
    obtain ⟨p, w, o, hp, hw, ho, hr⟩ := settled_of_mem_pass src hx
    exact enrichRecord_of_settled src' ⟨p, w, o, hp, hw, ht ▸ ho, hr⟩ now'
  | skipped =>
    obtain ⟨err, herr⟩ := error_of_mem_pass src hx
    exact enrichRecord_of_error src' now' (Record.error_of_error herr now')
  | failed =>
    have hmem : RecordFate.failed ∈ (s.pass src now rs).1.map Prod.snd :=
      List.mem_map_of_mem hx
    exact absurd hmem (List.count_eq_zero.mp hfailed)

/-! ### Two passes in a row -/

/-- **A second pass leaves alone what the first has enriched.**  After a pass over any records, with
any source and any cache to start from, a pass over what it has made of them finds each record that
was enriched as it is, enriches it to the very same record and asks the source nothing for it,
though the session goes on learning about the records that have failed.  If none has failed, the
whole second pass changes no record and nothing about the session, comes to the same summary and
asks the source nothing at all. -/
theorem second_pass (s : Session σ) (now now' : Time.Instant) (rs : List Record) :
    let first := s.enrichRecords src now rs
    let second := first.2.2.enrichRecords src now' first.1
    ∃ fates : List RecordFate, PassAccount src now s rs first.1 first.2.1 fates ∧
      (∀ (i : Nat) (r : Record), first.1[i]? = some r → fates[i]? = some .enriched →
        second.1[i]? = some r ∧
        ∀ log, let t := ((first.2.2.logged log).enrichRecords src.logged now' (first.1.take i)).2.2
          t.enrichRecord src.logged now' r = (r, .enriched, t)) ∧
      (first.2.1.failed = 0 → second = first ∧
        ∀ log, (first.2.2.logged log).enrichRecords src.logged now' first.1 =
          (first.1, first.2.1, first.2.2.logged log)) := by
  intro first second
  let xs := (s.pass src now rs).1
  have hfirst : first = (xs.map Prod.fst, .ofFates (xs.map Prod.snd), (s.pass src now rs).2) :=
    enrichRecords_eq src now s rs
  refine ⟨xs.map Prod.snd, ?_, fun i r hr hfate => ?_, fun hfailed => ?_⟩
  · rw [hfirst]
    exact account_of_pass src now s rs
  · have hsettled : first.2.2.Settled r := by
      rw [hfirst] at hr ⊢
      rw [List.getElem?_map] at hr hfate
      obtain ⟨⟨r', fate⟩, hx, rfl⟩ := Option.map_eq_some_iff.mp hr
      rw [hx] at hfate
      obtain rfl : fate = .enriched := Option.some.inj hfate
      exact settled_of_mem_pass src (List.mem_of_getElem? hx)
    constructor
    · have hstays := enrichRecord_of_settled src (hsettled.pass src now' (first.1.take i)) now'
      simp only [second, enrichRecords_eq, List.getElem?_map, getElem?_pass, hr, Option.map_some,
        hstays]
    · intro log t
      have hlogged : (first.2.2.logged log).Settled r := hsettled
      have ht : t.Settled r := by
        simp only [t, enrichRecords_eq]
        exact hlogged.pass src.logged now' (first.1.take i)
      exact enrichRecord_of_settled src.logged ht now'
  · rw [hfirst] at hfailed
    have hunchanged {τ : Type} (src' : Source τ) {t : Session τ}
        (ht : t.cache = (s.pass src now rs).2.cache) :
        t.pass src' now' (xs.map Prod.fst) = (xs, t) :=
      pass_of_unchanged src' fun x hx => enrichRecord_of_mem_pass src hfailed hx src' ht now'
    constructor
    · simp only [second, hfirst, enrichRecords_eq, hunchanged src rfl]
    · intro log
      have hlogged := hunchanged src.logged (t := (s.pass src now rs).2.logged log) rfl
      simp only [hfirst, enrichRecords_eq, hlogged]

/-- A record about a rule that the source knows, and one without evidence: both stay as the first
pass leaves them, though they are gone through again at another time. -/
theorem second_pass_sample :
    let src := about PolicyRef.sample.rule
    let first := (opened () 1 Nat.one_pos).enrichRecords src .latest
      [judged "Failed", ⟨none, Table.empty⟩]
    first.2.1 = ⟨2, 1, 1, 0⟩ ∧
      first.1[0]? = some ((judged "Failed").enriched
        ((Resolution.unmapped PolicyRef.sample.rule).enrich .nonCompliant)) ∧
      first.2.2.enrichRecords src midnight first.1 = first := by
  intro src first
  obtain ⟨fates, -, -, hunchanged⟩ := second_pass src (opened () 1 Nat.one_pos) .latest midnight
    [judged "Failed", ⟨none, Table.empty⟩]
  have hsummary : first.2.1 = ⟨2, 1, 1, 0⟩ := by decide +kernel
  have hfailed : first.2.1.failed = 0 := by rw [hsummary]
  exact ⟨hsummary, by decide +kernel, (hunchanged hfailed).1⟩

end Session

end Compliance
