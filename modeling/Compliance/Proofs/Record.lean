import Compliance.Codec.Fault
import Compliance.Proofs.Table
import Compliance.Record

/-!
# Records and their enrichments

An enrichment writes its verdict, metadata and status under eight keys of a record and leaves the
rest alone.  Under seven of them it always writes, so what stood there before is gone.  Advice is
written only if the metadata has some, and nothing is ever removed, so advice outlives the
enrichment that it belongs to until another one with advice comes along.

* `Record.complianceKeys` : the eight keys.
* `Record.get?_enriched` : what an enriched record holds under any key.
* `Record.carries_enriched`, `Record.sameBesides_enriched` : what it owes to the enrichment, and
  what it keeps.
* `Record.exists_evaluation` : whose outcome a record's evidence has.
* `Record.enriched_enriched_iff` : when an earlier enrichment makes no difference to a later one.
* `Record.get?_foldl_enriched` : the advice after any number of enrichments.
* `Record.only_advice_outlives` : all of that in one statement.
* `Record.stale_advice` : a rule that no catalog maps, with the advice for a control.
-/

namespace Compliance

namespace Record

/-! ### What an enrichment writes -/

/-- The keys that belong to enrichments. -/
def complianceKeys : List String :=
  [verdictKey, controlKey, catalogKey, categoryKey, requirementsKey, frameworksKey, statusKey,
    remediationKey]

/-- The value that an enrichment writes under a key, if it writes one. -/
def writtenUnder (e : Enrichment) (k : String) : Option AttributeValue :=
  ((written e).find? (·.1 = k)).map Prod.snd

theorem enriched_eq (r : Record) (e : Enrichment) :
    r.enriched e =
      { r with attributes := (written e).foldl (fun t a => t.insert a.1 a.2) r.attributes } := by
  have hfold (as : List (String × AttributeValue)) (r : Record) :
      as.foldl (fun r a => r.put a.1 a.2) r =
        { r with attributes := as.foldl (fun t a => t.insert a.1 a.2) r.attributes } := by
    induction as generalizing r with
    | nil => rfl
    | cons a as ih => exact ih (r.put a.1 a.2)
  exact hfold (written e) r

@[simp] theorem timestamp_enriched (r : Record) (e : Enrichment) :
    (r.enriched e).timestamp = r.timestamp := by
  rw [enriched_eq]

theorem keys_written (e : Enrichment) : (written e).map Prod.fst <+: complianceKeys := by
  unfold written complianceKeys
  cases e.metadata.remediation with
  | none => exact ⟨[remediationKey], rfl⟩
  | some s => exact ⟨[], rfl⟩

theorem pairwise_written (e : Enrichment) : (written e).Pairwise fun a b => a.1 ≠ b.1 := by
  have hkeys : complianceKeys.Nodup := by decide
  exact List.pairwise_map.mp (hkeys.sublist (keys_written e).sublist)

/-- **What an enriched record holds**: what the enrichment writes, and elsewhere what was there. -/
theorem get?_enriched (r : Record) (e : Enrichment) (k : String) :
    (r.enriched e).attributes.get? k = (writtenUnder e k).or (r.attributes.get? k) := by
  rw [enriched_eq]
  exact Table.get?_foldl_insert_of_pairwise r.attributes (pairwise_written e) k

theorem writtenUnder_eq_none {e : Enrichment} {k : String} (h : k ∉ complianceKeys) :
    writtenUnder e k = none := by
  have hnone : (written e).find? (·.1 = k) = none := by
    rw [List.find?_eq_none]
    intro a ha hk
    have hkey : a.1 ∈ complianceKeys := (keys_written e).subset (List.mem_map_of_mem ha)
    exact h (of_decide_eq_true hk ▸ hkey)
  rw [writtenUnder, hnone]
  rfl

theorem writtenUnder_remediation (e : Enrichment) :
    writtenUnder e remediationKey = e.metadata.remediation.map .text := by
  unfold writtenUnder written
  cases e.metadata.remediation <;> rfl

/-- Under the other seven keys something is written in any case. -/
theorem isSome_writtenUnder (e : Enrichment) {k : String} (hk : k ∈ complianceKeys)
    (hne : k ≠ remediationKey) : (writtenUnder e k).isSome := by
  simp only [complianceKeys, List.mem_cons, List.not_mem_nil, or_false] at hk
  rcases hk with rfl | rfl | rfl | rfl | rfl | rfl | rfl | rfl
  case inr.inr.inr.inr.inr.inr.inr => exact absurd rfl hne
  all_goals rfl

/-- A record holds all that an enrichment has to say. -/
structure Carries (r : Record) (x : Enrichment) : Prop where
  verdict : r.attributes.get? verdictKey = some (.text x.verdict.name)
  control : r.attributes.get? controlKey = some (.text x.metadata.controlId)
  catalog : r.attributes.get? catalogKey = some (.text x.metadata.catalogId)
  category : r.attributes.get? categoryKey = some (.text x.metadata.category)
  requirements : r.attributes.get? requirementsKey = some (.list x.metadata.requirements)
  frameworks : r.attributes.get? frameworksKey = some (.list x.metadata.frameworks)
  status : r.attributes.get? statusKey = some (.text x.status.name)
  advice : ∀ s, x.metadata.remediation = some s →
    r.attributes.get? remediationKey = some (.text s)

theorem carries_enriched (r : Record) (x : Enrichment) : (r.enriched x).Carries x := by
  have hwritten {k : String} {v : AttributeValue} (h : writtenUnder x k = some v) :
      (r.enriched x).attributes.get? k = some v := by
    rw [get?_enriched, h, Option.some_or]
  refine ⟨hwritten rfl, hwritten rfl, hwritten rfl, hwritten rfl, hwritten rfl, hwritten rfl,
    hwritten rfl, fun s hs => hwritten ?_⟩
  rw [writtenUnder_remediation, hs]
  rfl

/-- Two records differ under the keys of enrichments at most. -/
structure SameBesides (r r' : Record) : Prop where
  timestamp : r'.timestamp = r.timestamp
  others : ∀ k, k ∉ complianceKeys → r'.attributes.get? k = r.attributes.get? k

theorem sameBesides_enriched (r : Record) (x : Enrichment) : r.SameBesides (r.enriched x) := by
  refine ⟨timestamp_enriched r x, fun k hk => ?_⟩
  rw [get?_enriched, writtenUnder_eq_none hk, Option.none_or]

/-! ### Evidence -/

theorem usableText_eq_ok_iff {r : Record} {key s : String} :
    r.usableText key = .ok s ↔
      r.attributes.get? key = some (.text s) ∧ Text.isBlankText s = false := by
  unfold usableText
  split
  case h_1 t h =>
    rw [h]
    by_cases ht : Text.isBlankText t = true
    · rw [if_pos ht]
      simp only [reduceCtorEq, Option.some.injEq, AttributeValue.text.injEq, false_iff, not_and]
      rintro rfl
      simp [ht]
    · rw [if_neg ht]
      simp only [Except.ok.injEq, Option.some.injEq, AttributeValue.text.injEq, iff_self_and]
      rintro rfl
      simpa using ht
  case h_2 h =>
    simp only [reduceCtorEq, false_iff, not_and]
    intro hs
    exact absurd hs (h s)

/-- The outcome of a record's evidence is the one that the record itself names. -/
theorem exists_evaluation {r : Record} {now : Time.Instant} {e : Evidence}
    (h : r.evidence now = .ok e) :
    ∃ s, r.attributes.get? evaluationKey = some (.text s) ∧
      e.evaluation = Evaluation.ofText s := by
  simp only [evidence, Codec.bind_eq_ok_iff, usableText_eq_ok_iff] at h
  obtain ⟨-, -, rule, -, -, -, engine, -, s, ⟨hs, -⟩, he⟩ := h
  injection he with he
  refine ⟨s, hs, ?_⟩
  rw [← he]

/-! ### One enrichment after another -/

theorem eq_of_get? {r r' : Record} (ht : r.timestamp = r'.timestamp)
    (ha : ∀ k, r.attributes.get? k = r'.attributes.get? k) : r = r' := by
  obtain ⟨t, a⟩ := r
  obtain ⟨t', a'⟩ := r'
  obtain rfl : t = t' := ht
  obtain rfl : a = a' := Table.eq_of_get? ha
  rfl

/-- Apart from advice, an earlier enrichment makes no difference to a later one. -/
theorem get?_enriched_enriched (r : Record) (e e' : Enrichment) {k : String}
    (hk : k ≠ remediationKey) :
    ((r.enriched e).enriched e').attributes.get? k = (r.enriched e').attributes.get? k := by
  rw [get?_enriched, get?_enriched, get?_enriched]
  by_cases hmem : k ∈ complianceKeys
  · obtain ⟨v, hv⟩ := Option.isSome_iff_exists.mp (isSome_writtenUnder e' hmem hk)
    rw [hv, Option.some_or, Option.some_or]
  · rw [writtenUnder_eq_none hmem, Option.none_or, writtenUnder_eq_none hmem, Option.none_or]

/-- **When an enrichment leaves nothing of an earlier one**: it has advice itself, or the earlier
one had no other advice than the record had from the start. -/
theorem enriched_enriched_iff (r : Record) (e e' : Enrichment) :
    (r.enriched e).enriched e' = r.enriched e' ↔
      e'.metadata.remediation.isSome ∨
        ∀ s, e.metadata.remediation = some s →
          r.attributes.get? remediationKey = some (.text s) := by
  -- all but the advice is the same in any case
  have hadvice : (r.enriched e).enriched e' = r.enriched e' ↔
      ((r.enriched e).enriched e').attributes.get? remediationKey =
        (r.enriched e').attributes.get? remediationKey := by
    refine ⟨fun h => by rw [h], fun h => eq_of_get? (by simp) fun k => ?_⟩
    by_cases hk : k = remediationKey
    · rw [hk, h]
    · exact get?_enriched_enriched r e e' hk
  rw [hadvice, get?_enriched, get?_enriched, get?_enriched, writtenUnder_remediation,
    writtenUnder_remediation]
  cases e'.metadata.remediation with
  | some s' => simp
  | none =>
    cases e.metadata.remediation with
    | some s => simp [eq_comm]
    | none => simp

/-- **After any number of enrichments** a record carries the advice of the latest one that has
any. -/
theorem get?_foldl_enriched (r : Record) (es : List Enrichment) :
    (es.foldl enriched r).attributes.get? remediationKey =
      ((es.reverse.findSome? (·.metadata.remediation)).map .text).or
        (r.attributes.get? remediationKey) := by
  induction es using List.reverseRecOn with
  | nil => rfl
  | append_singleton es e ih =>
    rw [List.foldl_append, List.foldl_cons, List.foldl_nil, get?_enriched,
      writtenUnder_remediation, ih, List.reverse_append, List.reverse_singleton,
      List.singleton_append, List.findSome?_cons]
    cases e.metadata.remediation <;> rfl

/-- **Of an earlier enrichment only the advice can be left.**  What a record holds under seven of
the eight keys depends on its latest enrichment alone.  Under the eighth, which is that of the
advice, it does so exactly if that enrichment has advice; a record that has been enriched several
times carries the advice of the latest enrichment with any, and an earlier enrichment is without
consequence for a later one exactly if the later one has advice or the earlier one brings none that
is new to the record. -/
theorem only_advice_outlives (r : Record) (e e' : Enrichment) :
    (∀ (r' : Record), ∀ k ∈ complianceKeys, k ≠ remediationKey →
      (r.enriched e).attributes.get? k = (r'.enriched e).attributes.get? k) ∧
    ((∀ (t t' : Record), ∀ k ∈ complianceKeys,
        (t.enriched e).attributes.get? k = (t'.enriched e).attributes.get? k) ↔
      e.metadata.remediation.isSome) ∧
    (∀ es : List Enrichment, (es.foldl enriched r).attributes.get? remediationKey =
      ((es.reverse.findSome? (·.metadata.remediation)).map .text).or
        (r.attributes.get? remediationKey)) ∧
    ((r.enriched e).enriched e' = r.enriched e' ↔
      e'.metadata.remediation.isSome ∨
        ∀ s, e.metadata.remediation = some s →
          r.attributes.get? remediationKey = some (.text s)) := by
  have hseven : ∀ (t t' : Record), ∀ k ∈ complianceKeys, k ≠ remediationKey →
      (t.enriched e).attributes.get? k = (t'.enriched e).attributes.get? k := by
    intro t t' k hk hne
    obtain ⟨v, hv⟩ := Option.isSome_iff_exists.mp (isSome_writtenUnder e hk hne)
    rw [get?_enriched, get?_enriched, hv, Option.some_or, Option.some_or]
  refine ⟨hseven r, ⟨fun h => ?_, fun h t t' k hk => ?_⟩, get?_foldl_enriched r,
    enriched_enriched_iff r e e'⟩
  · -- a record with advice and one without tell whether any has been written
    have hdiffer := h ⟨none, {}⟩ ⟨none, Table.empty.insert remediationKey (.text "")⟩
      remediationKey (by decide)
    rw [get?_enriched, get?_enriched, writtenUnder_remediation, Table.get?_insert_self] at hdiffer
    cases hr : e.metadata.remediation with
    | some s => rfl
    | none =>
      rw [hr] at hdiffer
      exact absurd hdiffer (by simp)
  · by_cases hne : k = remediationKey
    · obtain ⟨s, hs⟩ := Option.isSome_iff_exists.mp h
      rw [hne, get?_enriched, get?_enriched, writtenUnder_remediation, hs]
      rfl
    · exact hseven t t' k hk hne

/-! ### Stale advice -/

/-- A record without attributes. -/
def blank : Record := ⟨none, {}⟩

/-- A failed check of a control for which there is advice. -/
def sampleMapped : Enrichment :=
  (Resolution.mapped ⟨"AC-1-REQ", "Access Control", "cat-A", some "Rotate keys", [], []⟩).enrich
    .nonCompliant

/-- The same check when no catalog maps its rule any more. -/
def sampleUnmapped : Enrichment :=
  (Resolution.unmapped ((Identifier.ofText? .rule "AC-1").get (by decide))).enrich .nonCompliant

/-- An enrichment with advice after one without, and what both orders leave under another key. -/
theorem only_advice_outlives_sample :
    (blank.enriched sampleUnmapped).enriched sampleMapped = blank.enriched sampleMapped ∧
    (blank.enriched sampleUnmapped).attributes.get? controlKey =
      ((blank.enriched sampleMapped).enriched sampleUnmapped).attributes.get? controlKey := by
  obtain ⟨hseven, -, -, hagain⟩ := only_advice_outlives blank sampleUnmapped sampleMapped
  have hcontrol : controlKey ∈ complianceKeys := by simp [complianceKeys]
  exact ⟨hagain.mpr (.inl rfl),
    hseven (blank.enriched sampleMapped) controlKey hcontrol (by decide)⟩

/-- **Advice outlives its control**: once the rule is mapped no more, the record still carries the
advice for the control that it was mapped to, though the enrichment would not write any. -/
theorem stale_advice :
    ((blank.enriched sampleMapped).enriched sampleUnmapped).attributes.get? statusKey =
      some (.text "unmapped") ∧
    ((blank.enriched sampleMapped).enriched sampleUnmapped).attributes.get? remediationKey =
      some (.text "Rotate keys") ∧
    (blank.enriched sampleUnmapped).attributes.get? remediationKey = none ∧
    ¬ ∀ (r : Record) (e e' : Enrichment), (r.enriched e).enriched e' = r.enriched e' := by
  have hkept : ((blank.enriched sampleMapped).enriched sampleUnmapped).attributes.get?
      remediationKey = some (.text "Rotate keys") := by
    rw [get?_enriched, get?_enriched, writtenUnder_remediation, writtenUnder_remediation]
    rfl
  have hnone : (blank.enriched sampleUnmapped).attributes.get? remediationKey = none := by
    rw [get?_enriched, writtenUnder_remediation]
    rfl
  have hstatus : ((blank.enriched sampleMapped).enriched sampleUnmapped).attributes.get?
      statusKey = some (.text "unmapped") := by
    rw [get?_enriched]
    rfl
  refine ⟨hstatus, hkept, hnone, fun h => ?_⟩
  rw [h, hnone] at hkept
  cases hkept

end Record

end Compliance
