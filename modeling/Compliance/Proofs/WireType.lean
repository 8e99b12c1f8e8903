import Compliance.Proofs.Codec.Yields
import Compliance.Proofs.Wire

/-!
# Every type on the wire

A value that is written is read back as it was, and a text that can be read at all gives a value
that can be written.  Identifiers and instants are well formed by their types, since nothing else
can be built; what the types leave open is the size of numbers, and there the reader is as strict as
the writer needs it to be.

* `WireType.WellFormed` : the values that travel.
* `WireType.readsBack`, `WireType.wellFormed_of_yields` : they are read back, and no others are
  read.
* `WireType.round_trip` : both for whole texts, and what becomes of parts that are left out, of
  blanks around identifiers and of words that are no outcomes.
-/

namespace Compliance

open Codec
open Compliance.Text (trim)

/-! ### Parts -/

/-- The texts of the identifiers in a policy. -/
def PolicyRef.identifiers (p : PolicyRef) : List String := [p.engine.text, p.rule.text]

theorem PolicyRef.trimmed_of_mem_identifiers {p : PolicyRef} {s : String}
    (h : s ∈ p.identifiers) : trim s = s ∧ s ≠ "" := by
  rcases List.mem_pair.mp h with rfl | rfl
  · exact ⟨p.engine.trimmed, p.engine.nonempty⟩
  · exact ⟨p.rule.trimmed, p.rule.nonempty⟩

theorem Evidence.write_eq (now later : Time.Instant) (e : Evidence) :
    (Evidence.codec now).write e = (Evidence.codec later).write e := by
  simp only [Evidence.codec, Codec.map, Fields.codec, Fields.members, Fields.required,
    Fields.defaulted]

theorem Identifier.decode_eq_ok_iff {kind : IdentifierKind} {text : String}
    {a : Identifier kind} :
    (Identifier.codec kind).decode text = .ok a ↔
      ∃ s, string.decode text = .ok s ∧ trim s ≠ "" ∧ a.text = trim s := by
  rw [Identifier.codec, decode_parsed_eq_ok_iff]
  refine exists_congr fun s => and_congr_right fun _ => ?_
  rw [← ofText?_eq_some_iff]
  cases ofText? kind s <;> simp

/-- The counts of a summary. -/
def BatchSummary.counts (s : BatchSummary) : List Nat := [s.total, s.success, s.failed]

theorem BatchSummary.lt_of_yields {s : BatchSummary} (h : BatchSummary.codec.Yields s) :
    ∀ n ∈ s.counts, n < 0x10000000000000000 := by
  obtain ⟨⟨total, success, failed, _⟩, hfields, rfl⟩ := h.exists_of_map
  obtain ⟨htotal, hfields⟩ := (Fields.held_of_yields hfields).of_required
  obtain ⟨hsuccess, hfields⟩ := hfields.of_required
  obtain ⟨hfailed, -⟩ := hfields.of_required
  simp only [counts, List.forall_mem_cons]
  exact ⟨htotal.lt_of_natural, hsuccess.lt_of_natural, hfailed.lt_of_natural, by simp⟩

theorem BatchItem.index_lt_of_yields {i : BatchItem} (h : BatchItem.codec.Yields i) :
    i.index < 0x10000000000000000 := by
  obtain ⟨⟨index, rule, outcome, error, _⟩, hfields, rfl⟩ := h.exists_of_map
  obtain ⟨hindex, -⟩ := (Fields.held_of_yields hfields).of_required
  exact hindex.lt_of_natural

theorem BatchAnswer.parts_of_yields {a : BatchAnswer} (h : BatchAnswer.codec.Yields a) :
    (∀ i ∈ a.items, BatchItem.codec.Yields i) ∧ BatchSummary.codec.Yields a.summary := by
  obtain ⟨⟨items, summary, _⟩, hfields, rfl⟩ := h.exists_of_map
  obtain ⟨hitems, hfields⟩ := (Fields.held_of_yields hfields).of_required
  obtain ⟨hsummary, -⟩ := hfields.of_required
  exact ⟨hitems.of_list, hsummary⟩

/-! ### What is left out -/

/-- The names of the members of an object. -/
def Json.names : Json → List String
  | .object members => members.map Prod.fst
  | _ => []

theorem Metadata.mem_names_iff (m : Metadata) :
    "remediationDescription" ∈ (Metadata.codec.write m).names ↔ m.remediation.isSome := by
  cases h : m.remediation <;>
    simp [Metadata.codec, Codec.map, Fields.codec, Fields.members, Fields.required,
      Fields.optional, Fields.defaulted, Json.names, h]

theorem BatchItem.mem_names_iff (i : BatchItem) :
    ("compliance" ∈ (BatchItem.codec.write i).names ↔ i.outcome.isSome) ∧
      ("error" ∈ (BatchItem.codec.write i).names ↔ i.error.isSome) := by
  cases h : i.outcome <;> cases h' : i.error <;>
    simp [BatchItem.codec, Codec.map, Fields.codec, Fields.members, Fields.required,
      Fields.optional, Json.names, h, h']

theorem Record.mem_names_iff (r : Record) :
    "timestamp" ∈ (Record.codec.write r).names ↔ r.timestamp.isSome := by
  cases h : r.timestamp <;>
    simp [Record.codec, Codec.map, Fields.codec, Fields.members, Fields.optional,
      Fields.defaulted, Json.names, h]

namespace WireType

/-- The texts of the identifiers in a value. -/
def identifiers : (t : WireType) → t.Value → List String
  | catalogId, a => [a.text]
  | engineName, a => [a.text]
  | ruleId, a => [a.text]
  | policyRef, p | metadataRequest, p => p.identifiers
  | catalog, c => [c.id.text]
  | batchRequest, ps => ps.flatMap PolicyRef.identifiers
  | batchItem, i => [i.rule.text]
  | batchAnswer, a => a.items.map (·.rule.text)
  | evidence, e | enrichRequest, e => e.policy.identifiers
  | _, _ => []

/-- The indices and counts in a value. -/
def counts : (t : WireType) → t.Value → List Nat
  | batchItem, i => [i.index]
  | batchSummary, s => s.counts
  | batchAnswer, a => a.items.map (·.index) ++ a.summary.counts
  | _, _ => []

/-- The identifiers in a value are trimmed and not empty, and its indices and counts fit into 64
bits. -/
structure WellFormed (t : WireType) (v : t.Value) : Prop where
  identifiers : ∀ s ∈ t.identifiers v, trim s = s ∧ s ≠ ""
  counts : ∀ n ∈ t.counts v, n < 0x10000000000000000

/-! ### From values to texts -/

theorem readsBack (now : Time.Instant) {t : WireType} {v : t.Value} (h : t.WellFormed v) :
    (t.codec now).ReadsBack Json.maxDepth v := by
  obtain ⟨-, hcounts⟩ := h
  -- the numbers are what a value of the type leaves of the 127 levels
  cases t with
  | catalogId => exact v.readsBack _
  | engineName => exact v.readsBack _
  | ruleId => exact v.readsBack _
  | policyRef => exact v.readsBack 126
  | evaluation => exact v.readsBack _
  | verdict => exact v.readsBack _
  | status => exact v.readsBack _
  | metadata => exact v.readsBack 125
  | resolution => exact v.readsBack 124
  | enrichment => exact v.readsBack 124
  | catalog => exact v.readsBack 118
  | plan => exact v.readsBack 122
  | metadataRequest => exact (v.readsBack 125).member "policy"
  | metadataResponse => exact (v.readsBack 123).member "compliance"
  | batchRequest => exact Wire.readsBack_batchRequest 124 v
  | batchItem => exact BatchItem.readsBack (by simpa [counts] using hcounts) 123
  | batchSummary =>
    obtain ⟨htotal, hsuccess, hfailed⟩ : _ ∧ _ ∧ _ := by
      simpa [counts, BatchSummary.counts] using hcounts
    exact BatchSummary.readsBack htotal hsuccess hfailed 126
  | batchAnswer =>
    obtain ⟨hitems, hsummary⟩ := List.forall_mem_append.mp hcounts
    obtain ⟨htotal, hsuccess, hfailed⟩ : _ ∧ _ ∧ _ := by
      simpa [BatchSummary.counts] using hsummary
    have hindex : ∀ i ∈ v.items, i.index < 0x10000000000000000 := fun i hi =>
      hitems i.index (List.mem_map_of_mem hi)
    exact BatchAnswer.readsBack_of_lt hindex htotal hsuccess hfailed 121
  | enrichResponse => exact (v.readsBack 123).member "result"
  | attributeValue => exact v.readsBack 126
  | record => exact v.readsBack 124
  | evidence => exact v.readsBack now 125
  | enrichRequest => exact (v.readsBack now 124).member "evidence"

/-- What is written does not depend on when. -/
theorem encode_eq (now later : Time.Instant) (t : WireType) (v : t.Value) :
    (t.codec now).encode v = (t.codec later).encode v := by
  have hwrite : (t.codec now).write v = (t.codec later).write v := by
    cases t with
    | evidence => exact Evidence.write_eq now later v
    | enrichRequest =>
      simp only [codec, Wire.enrichRequest, member, Codec.map, Fields.codec, Fields.members,
        Fields.required, Evidence.write_eq now later]
    | _ => rfl
  rw [encode, encode, hwrite]

/-! ### From texts to values -/

/-- Identifiers are well formed wherever they come from. -/
theorem trimmed_of_mem_identifiers {t : WireType} {v : t.Value} {s : String}
    (h : s ∈ t.identifiers v) : trim s = s ∧ s ≠ "" := by
  have hidentifier {kind : IdentifierKind} (a : Identifier kind) (hs : s = a.text) :
      trim s = s ∧ s ≠ "" := hs ▸ ⟨a.trimmed, a.nonempty⟩
  cases t with
  | catalogId => exact hidentifier v (List.mem_singleton.mp h)
  | engineName => exact hidentifier v (List.mem_singleton.mp h)
  | ruleId => exact hidentifier v (List.mem_singleton.mp h)
  | policyRef => exact v.trimmed_of_mem_identifiers h
  | metadataRequest => exact v.trimmed_of_mem_identifiers h
  | catalog => exact hidentifier v.id (List.mem_singleton.mp h)
  | batchRequest =>
    obtain ⟨p, -, hp⟩ := List.mem_flatMap.mp h
    exact p.trimmed_of_mem_identifiers hp
  | batchItem => exact hidentifier v.rule (List.mem_singleton.mp h)
  | batchAnswer =>
    obtain ⟨i, -, rfl⟩ := List.mem_map.mp h
    exact hidentifier i.rule rfl
  | evidence => exact v.policy.trimmed_of_mem_identifiers h
  | enrichRequest => exact v.policy.trimmed_of_mem_identifiers h
  | _ => cases h

/-- What is read is well formed. -/
theorem wellFormed_of_yields {now : Time.Instant} {t : WireType} {v : t.Value}
    (h : (t.codec now).Yields v) : t.WellFormed v := by
  refine ⟨fun s hs => trimmed_of_mem_identifiers hs, ?_⟩
  -- only answers to batches hold numbers
  intro n hn
  cases t with
  | batchItem =>
    obtain rfl := List.mem_singleton.mp hn
    exact BatchItem.index_lt_of_yields h
  | batchSummary => exact BatchSummary.lt_of_yields h n hn
  | batchAnswer =>
    obtain ⟨hitems, hsummary⟩ := BatchAnswer.parts_of_yields h
    rcases List.mem_append.mp hn with hn | hn
    · obtain ⟨i, hi, rfl⟩ := List.mem_map.mp hn
      exact BatchItem.index_lt_of_yields (hitems i hi)
    · exact BatchSummary.lt_of_yields hsummary n hn
  | _ => cases hn

/-! ### Whole texts -/

/-- **Everything on the wire keeps.**  A well-formed value of any type is read back from its text,
whenever that is read; what is read from any text is well formed, so that writing it and reading it
once more changes nothing.  Blanks around identifiers are dropped and blank identifiers refused, any
word is read as an outcome, and of the parts that may be missing those that are missing, and no
others, are left out. -/
theorem round_trip (now later : Time.Instant) :
    (∀ (t : WireType) (v : t.Value), t.WellFormed v →
      (t.codec later).decode ((t.codec now).encode v) = .ok v) ∧
    (∀ (t : WireType) (text : String) (v : t.Value), (t.codec now).decode text = .ok v →
      t.WellFormed v ∧
      ((t.codec now).decode ((t.codec now).encode v)).map (t.codec now).encode =
        .ok ((t.codec now).encode v)) ∧
    (∀ (kind : IdentifierKind) (text : String) (a : Identifier kind),
      (Identifier.codec kind).decode text = .ok a ↔
        ∃ s, string.decode text = .ok s ∧ trim s ≠ "" ∧ a.text = trim s) ∧
    (∀ (text : String) (e : Evaluation), Evaluation.codec.decode text = .ok e ↔
      ∃ s, string.decode text = .ok s ∧ Evaluation.ofText s = e) ∧
    (∀ m : Metadata,
      "remediationDescription" ∈ (Metadata.codec.write m).names ↔ m.remediation.isSome) ∧
    (∀ i : BatchItem, ("compliance" ∈ (BatchItem.codec.write i).names ↔ i.outcome.isSome) ∧
      ("error" ∈ (BatchItem.codec.write i).names ↔ i.error.isSome)) ∧
    ∀ r : Record, "timestamp" ∈ (Record.codec.write r).names ↔ r.timestamp.isSome := by
  refine ⟨fun t v hv => ?_, fun t text v htext => ?_, fun kind text a =>
    Identifier.decode_eq_ok_iff, fun text e => ?_, Metadata.mem_names_iff,
    BatchItem.mem_names_iff, Record.mem_names_iff⟩
  · rw [encode_eq now later]
    exact (readsBack later hv).decode_encode
  · have hv : t.WellFormed v := wellFormed_of_yields (.of_decode htext)
    refine ⟨hv, ?_⟩
    rw [(readsBack now hv).decode_encode]
    rfl
  · rw [Evaluation.codec, decode_parsed_eq_ok_iff]
    simp only [Except.ok.injEq]

/-- An item with the largest index, and a text that is read. -/
theorem round_trip_sample :
    let item : BatchItem :=
      ⟨0xFFFFFFFFFFFFFFFF, ⟨"AC-1", by decide, by decide⟩, none, some "no answer"⟩
    BatchItem.codec.decode (BatchItem.codec.encode item) = .ok item ∧
    (BatchItem.codec.decode (BatchItem.codec.encode item)).map BatchItem.codec.encode =
      .ok (BatchItem.codec.encode item) := by
  intro item
  obtain ⟨hwritten, hread, -⟩ := round_trip .latest .latest
  have hitem : batchItem.WellFormed item := by
    constructor
    · intro s hs
      obtain rfl := List.mem_singleton.mp hs
      decide
    · intro n hn
      obtain rfl := List.mem_singleton.mp hn
      decide
  have hdecode := hwritten batchItem item hitem
  exact ⟨hdecode, (hread batchItem _ item hdecode).2⟩

end WireType

end Compliance
