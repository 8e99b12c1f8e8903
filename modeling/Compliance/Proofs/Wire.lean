import Compliance.Proofs.Codec.Fields
import Compliance.Proofs.Time.Rfc3339
import Compliance.Wire

/-!
# What travels between client and service

The values on the wire are read back from their text, whatever texts stand in them.  The only
condition is on numbers: indices and counts have to fit into 64 bits.

* `PolicyRef.readsBack`, `Evidence.readsBack`, `Metadata.readsBack`, `Resolution.readsBack`,
  `Enrichment.readsBack` : evidence and metadata.
* `Catalog.readsBack`, `AssessmentPlan.readsBack` : documents.
* `BatchItem.readsBack`, `BatchSummary.readsBack`, `BatchAnswer.readsBack` : answers to batches.
* `Wire.readsBack_batchRequest` : requests for batches.
* `AttributeValue.readsBack`, `Record.readsBack` : records.
-/

namespace Compliance

open Codec
open Codec.Fields (readable_optional)

theorem Codec.ReadsBack.member {α : Type} {c : Codec α} {depth : Nat} {a : α}
    (h : c.ReadsBack depth a) (name : String) :
    (Codec.member name c).ReadsBack (depth + 1) a := by
  refine ReadsBack.map (Fields.Readable.readsBack ?_ (by simp [Fields.required, Fields.names])) rfl
  exact ⟨h, trivial⟩

/-! ### Parts -/

theorem Identifier.readsBack {kind : IdentifierKind} (depth : Nat) (a : Identifier kind) :
    (Identifier.codec kind).ReadsBack depth a :=
  readsBack_parsed (by rw [Identifier.ofText?_text]) depth

theorem ResolutionStatus.readsBack (depth : Nat) (r : ResolutionStatus) :
    ResolutionStatus.codec.ReadsBack depth r :=
  readsBack_choice (ResolutionStatus.named?_name r) depth

theorem Evaluation.readsBack (depth : Nat) (e : Evaluation) :
    Evaluation.codec.ReadsBack depth e :=
  readsBack_parsed (by rw [Evaluation.ofText_name]) depth

theorem Verdict.readsBack (depth : Nat) (v : Verdict) : Verdict.codec.ReadsBack depth v :=
  readsBack_choice (Verdict.named?_name v) depth

theorem Time.Instant.readsBack (depth : Nat) (t : Time.Instant) :
    Time.Instant.codec.ReadsBack depth t :=
  readsBack_parsed (by rw [Time.Instant.read?_toText, orMismatch]) depth

theorem PolicyRef.readsBack (depth : Nat) (p : PolicyRef) :
    PolicyRef.codec.ReadsBack (depth + 1) p := by
  refine ReadsBack.map (Fields.Readable.readsBack ?_ (by decide)) rfl
  exact ⟨p.engine.readsBack depth, p.rule.readsBack depth, trivial⟩

theorem Evidence.readsBack (now : Time.Instant) (depth : Nat) (e : Evidence) :
    (Evidence.codec now).ReadsBack (depth + 2) e := by
  refine ReadsBack.map (Fields.Readable.readsBack ?_
    (by simp [Fields.required, Fields.defaulted, Fields.names])) rfl
  exact ⟨e.policy.readsBack depth, e.evaluation.readsBack _, e.observedAt.readsBack _, trivial⟩

theorem Metadata.readsBack (depth : Nat) (m : Metadata) :
    Metadata.codec.ReadsBack (depth + 2) m := by
  refine ReadsBack.map (Fields.Readable.readsBack ?_ (by decide)) rfl
  have hstring := readsBack_string (depth + 1)
  have hlist (ss : List String) : (list string).ReadsBack (depth + 1) ss :=
    ReadsBack.list fun s _ => readsBack_string depth s
  exact ⟨hstring _, hstring _, hstring _, readable_optional (fun s _ => hstring s)
    ⟨hlist _, hlist _, trivial⟩⟩

theorem Resolution.readsBack (depth : Nat) (r : Resolution) :
    Resolution.codec.ReadsBack (depth + 3) r := by
  refine ReadsBack.map (Fields.Readable.readsBack ?_ (by decide)) rfl
  exact ⟨r.status.readsBack _, r.metadata.readsBack depth, trivial⟩

theorem Enrichment.readsBack (depth : Nat) (e : Enrichment) :
    Enrichment.codec.ReadsBack (depth + 3) e := by
  refine ReadsBack.map (Fields.Readable.readsBack ?_ (by decide)) rfl
  exact ⟨e.metadata.readsBack depth, e.status.readsBack _, e.verdict.readsBack _, trivial⟩

/-! ### Documents -/

theorem StandardMapping.readsBack (depth : Nat) (m : StandardMapping) :
    StandardMapping.codec.ReadsBack (depth + 3) m := by
  refine ReadsBack.map (Fields.Readable.readsBack ?_ (by decide)) rfl
  refine ⟨readsBack_string _ _, ReadsBack.list fun s _ => ?_, trivial⟩
  exact (readsBack_string depth s).member "requirementRef"

theorem Control.readsBack (depth : Nat) (c : Control) :
    Control.codec.ReadsBack (depth + 5) c := by
  refine ReadsBack.map (Fields.Readable.readsBack ?_ (by decide)) rfl
  exact ⟨readsBack_string _ _, ReadsBack.list fun m _ => m.readsBack depth, trivial⟩

theorem ControlFamily.readsBack (depth : Nat) (f : ControlFamily) :
    ControlFamily.codec.ReadsBack (depth + 7) f := by
  refine ReadsBack.map (Fields.Readable.readsBack ?_ (by decide)) rfl
  exact ⟨readsBack_string _ _, ReadsBack.list fun c _ => c.readsBack depth, trivial⟩

theorem Catalog.readsBack (depth : Nat) (c : Catalog) :
    Catalog.codec.ReadsBack (depth + 9) c := by
  refine ReadsBack.map (Fields.Readable.readsBack ?_ (by decide)) rfl
  exact ⟨c.id.readsBack _, ReadsBack.list fun f _ => f.readsBack depth, trivial⟩

theorem Procedure.readsBack (depth : Nat) (p : Procedure) :
    Procedure.codec.ReadsBack (depth + 1) p := by
  refine ReadsBack.map (Fields.Readable.readsBack ?_ (by decide)) rfl
  exact ⟨readsBack_string _ _, readsBack_string _ _, trivial⟩

theorem Requirement.readsBack (depth : Nat) (r : Requirement) :
    Requirement.codec.ReadsBack (depth + 3) r := by
  refine ReadsBack.map (Fields.Readable.readsBack ?_ (by decide)) rfl
  exact ⟨readsBack_string _ _, ReadsBack.list fun p _ => p.readsBack depth, trivial⟩

theorem AssessmentPlan.readsBack (depth : Nat) (p : AssessmentPlan) :
    AssessmentPlan.codec.ReadsBack (depth + 5) p := by
  refine ReadsBack.map (Fields.Readable.readsBack ?_ (by decide)) rfl
  exact ⟨readsBack_string _ _, ReadsBack.list fun r _ => r.readsBack depth, trivial⟩

/-! ### Batches -/

theorem readsBack_count {n : Nat} (h : n < 0x10000000000000000) (depth : Nat) :
    count.ReadsBack depth n :=
  readsBack_natural h (Nat.le_refl _) depth

theorem BatchItem.readsBack {i : BatchItem} (h : i.index < 0x10000000000000000) (depth : Nat) :
    BatchItem.codec.ReadsBack (depth + 4) i := by
  refine ReadsBack.map (Fields.Readable.readsBack ?_ (by decide)) rfl
  refine ⟨readsBack_count h _, i.rule.readsBack _, ?_⟩
  refine readable_optional (fun r _ => r.readsBack depth) ?_
  exact readable_optional (fun s _ => readsBack_string _ s) trivial

theorem BatchSummary.readsBack {s : BatchSummary} (htotal : s.total < 0x10000000000000000)
    (hsuccess : s.success < 0x10000000000000000) (hfailed : s.failed < 0x10000000000000000)
    (depth : Nat) : BatchSummary.codec.ReadsBack (depth + 1) s := by
  refine ReadsBack.map (Fields.Readable.readsBack ?_ (by decide)) rfl
  exact ⟨readsBack_count htotal depth, readsBack_count hsuccess depth,
    readsBack_count hfailed depth, trivial⟩

/-- **An answer is read back** if its indices and counts are below 2⁶⁴. -/
theorem BatchAnswer.readsBack_of_lt {a : BatchAnswer}
    (hindex : ∀ i ∈ a.items, i.index < 0x10000000000000000)
    (htotal : a.summary.total < 0x10000000000000000)
    (hsuccess : a.summary.success < 0x10000000000000000)
    (hfailed : a.summary.failed < 0x10000000000000000) (depth : Nat) :
    BatchAnswer.codec.ReadsBack (depth + 6) a := by
  refine ReadsBack.map (Fields.Readable.readsBack ?_ (by decide)) rfl
  refine ⟨ReadsBack.list fun i hi => BatchItem.readsBack (hindex i hi) depth, ?_, trivial⟩
  exact BatchSummary.readsBack htotal hsuccess hfailed (depth + 4)

/-- An answer with the summary of its own items is read back if it has fewer than 2⁶⁴ items. -/
theorem BatchAnswer.readsBack {items : List BatchItem}
    (hlength : items.length < 0x10000000000000000)
    (hindex : ∀ i ∈ items, i.index < 0x10000000000000000) (depth : Nat) :
    BatchAnswer.codec.ReadsBack (depth + 6) ⟨items, .ofItems items⟩ := by
  have hcount : items.countP (·.outcome.isSome) ≤ items.length := List.countP_le_length
  have hsuccess : (BatchSummary.ofItems items).success < 0x10000000000000000 :=
    Nat.lt_of_le_of_lt hcount hlength
  have hfailed : (BatchSummary.ofItems items).failed < 0x10000000000000000 :=
    Nat.lt_of_le_of_lt (Nat.sub_le _ _) hlength
  exact readsBack_of_lt hindex hlength hsuccess hfailed depth

/-- **A request is read back**, however long it is. -/
theorem Wire.readsBack_batchRequest (depth : Nat) (ps : List PolicyRef) :
    Wire.batchRequest.ReadsBack (depth + 3) ps :=
  (ReadsBack.list fun p _ => p.readsBack depth).member "policies"

/-! ### Records -/

theorem AttributeValue.texts?_map (ss : List String) : texts? (ss.map .string) = some ss := by
  induction ss with
  | nil => rfl
  | cons s ss ih => rw [List.map_cons, texts?, ih, Option.map_some]

theorem AttributeValue.readsBack (depth : Nat) (v : AttributeValue) :
    AttributeValue.codec.ReadsBack (depth + 1) v := by
  cases v with
  | text s =>
    refine ⟨opens_quote s, fun rest _ => ?_⟩
    have hread := Json.readValue_string (depth + 1) s rest
    simp only [AttributeValue.codec, hread, ok_bind, ofJson?, orMismatch]
    rfl
  | list ss =>
    refine ⟨⟨'[', _, rfl, rfl, by decide, by decide⟩, fun rest _ => ?_⟩
    have hread := Json.readValue_strings depth ss rest
    simp only [AttributeValue.codec, hread, ok_bind, ofJson?, texts?_map, Option.map_some,
      orMismatch]
    rfl

theorem Record.readsBack (depth : Nat) (r : Record) : Record.codec.ReadsBack (depth + 3) r := by
  refine ReadsBack.map (Fields.Readable.readsBack ?_ (by decide)) rfl
  refine readable_optional (fun t _ => t.readsBack _) ⟨?_, trivial⟩
  exact ReadsBack.table fun e _ => e.2.readsBack depth

end Compliance
