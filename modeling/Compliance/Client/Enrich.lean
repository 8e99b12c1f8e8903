import Compliance.Client.Session
import Compliance.Codec.Record
import Compliance.Record

/-!
# Enrichment of records

Each record of a list is enriched with what a session finds out about its evidence. A record that
carries no evidence, or about which nothing can be found out, stays as it is.
-/

namespace Compliance

/-- What became of the records of a list. -/
structure EnrichmentSummary where
  total : Nat := 0
  enriched : Nat := 0
  skippedInvalid : Nat := 0
  failed : Nat := 0
  deriving DecidableEq, Repr

/-- A summary is four counts. -/
def EnrichmentSummary.codec : Codec EnrichmentSummary :=
  open Codec in open Codec.Fields in
  (required "total" count <|
    required "enriched" count <|
    required "skipped_invalid" count <|
    required "failed" count .nil).codec.map
    (fun (total, enriched, skippedInvalid, failed, _) => ⟨total, enriched, skippedInvalid, failed⟩)
    (fun s => (s.total, s.enriched, s.skippedInvalid, s.failed, ()))

/-- What became of one record. -/
inductive RecordFate where
  | enriched
  | skipped
  | failed
  deriving DecidableEq, Repr

/-- A summary that counts one record more. -/
def EnrichmentSummary.add (s : EnrichmentSummary) (fate : RecordFate) : EnrichmentSummary :=
  let s := { s with total := s.total + 1 }
  match fate with
  | .enriched => { s with enriched := s.enriched + 1 }
  | .skipped => { s with skippedInvalid := s.skippedInvalid + 1 }
  | .failed => { s with failed := s.failed + 1 }

namespace Session

variable {σ : Type}

/-- Enriches one record; a record without a time was made `now`. -/
def enrichRecord (src : Source σ) (now : Time.Instant) (s : Session σ) (r : Record) :
    Record × RecordFate × Session σ :=
  match r.evidence now with
  | .error _ => (r, .skipped, s)
  | .ok e =>
    match s.retrieve src e with
    | (.ok enrichment, s) => (r.enriched enrichment, .enriched, s)
    | (.error _, s) => (r, .failed, s)

/-- Enriches the records of a list in order. -/
def enrichRecords (src : Source σ) (now : Time.Instant) :
    Session σ → List Record → List Record × EnrichmentSummary × Session σ
  | s, rs => go s {} rs
where
  /-- Enriches the records after those that the summary counts. -/
  go : Session σ → EnrichmentSummary → List Record → List Record × EnrichmentSummary × Session σ
    | s, summary, [] => ([], summary, s)
    | s, summary, r :: rs =>
      let (r, fate, s) := s.enrichRecord src now r
      let (rs, summary, s) := go s (summary.add fate) rs
      (r :: rs, summary, s)

end Session

end Compliance
