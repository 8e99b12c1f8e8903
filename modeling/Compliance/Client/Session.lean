import Compliance.Client.Source

/-!
# Cached retrieval

A session keeps what it has learned from its source. Metadata depends on the rule alone, so it is
kept under the rule and never expires; verdicts are computed afresh from each piece of evidence.

* `Session.retrieve` : enriches evidence, asking the source only about a rule that is not cached.
* `Session.prefetch` : asks about many rules in chunks and caches what comes back.
-/

namespace Compliance

/-- Resolutions by rule. -/
abbrev Cache := Table RuleId Resolution

/-- A cache in front of a source whose state is `world`. -/
structure Session (σ : Type) where
  cache : Cache := {}
  /-- How many rules are asked for at once. -/
  batchSize : Nat := 50
  world : σ
  batchSize_pos : 0 < batchSize := by decide

/-- What a prefetch has done. -/
structure PrefetchReport where
  /-- How many policies were given. -/
  requested : Nat := 0
  /-- How many rules they name. -/
  unique : Nat := 0
  /-- How many chunks were asked for. -/
  batches : Nat := 0
  /-- How many of them failed. -/
  failedBatches : Nat := 0
  /-- How many outcomes were cached. -/
  cached : Nat := 0
  deriving DecidableEq, Repr

/-! ### Lists of policies -/

/-- The first policy for each rule, in order, except for the rules in `seen`. -/
def firstPerRule (seen : List RuleId) : List PolicyRef → List PolicyRef
  | [] => []
  | p :: ps =>
    if p.rule ∈ seen then firstPerRule seen ps
    else p :: firstPerRule (p.rule :: seen) ps

/-- A list in chunks of `size`, which is not zero; the last may be shorter. -/
def chunks {α : Type} (size : Nat) (h : 0 < size) (xs : List α) : List (List α) :=
  match xs with
  | [] => []
  | x :: rest => (x :: rest).take size :: chunks size h ((x :: rest).drop size)
termination_by xs.length
decreasing_by simp; omega

namespace Session

variable {σ : Type}

/-- A session that asks for so many rules at once; none counts as one. -/
def withBatchSize (s : Session σ) (n : Nat) : Session σ :=
  { s with batchSize := max n 1, batchSize_pos := by omega }

/-! ### Retrieval -/

/-- The outcome of a policy: the cached one, or else what the source says, which is then cached. -/
def resolve (src : Source σ) (s : Session σ) (p : PolicyRef) :
    Except ClientError Resolution × Session σ :=
  match s.cache.get? p.rule with
  | some r => (.ok r, s)
  | none =>
    match src.fetchOne s.world p with
    | (.ok r, w) => (.ok r, { s with cache := s.cache.insert p.rule r, world := w })
    | (.error e, w) => (.error e, { s with world := w })

/-- What is known about a piece of evidence. -/
def retrieve (src : Source σ) (s : Session σ) (e : Evidence) :
    Except ClientError Enrichment × Session σ :=
  let (r, s) := s.resolve src e.policy
  (r.map (·.enrich e.verdict), s)

/-! ### Prefetching -/

/-- The outcome that an item brings for its rule, if it has no error. -/
def usable (item : BatchItem) : Option (RuleId × Resolution) :=
  if item.error.isSome then none else item.outcome.map (item.rule, ·)

/-- A cache with the outcomes of some items. -/
def store (c : Cache) (items : List BatchItem) : Cache :=
  (items.filterMap usable).foldl (fun c (rule, r) => c.insert rule r) c

/-- Asks for the rules of one chunk and caches what comes back. -/
def prefetchChunk (src : Source σ) : Session σ × PrefetchReport → List PolicyRef →
    Session σ × PrefetchReport
  | (s, report), chunk =>
    let report := { report with batches := report.batches + 1 }
    match src.fetch s.world chunk with
    | (.ok items, w) =>
      ({ s with cache := store s.cache items, world := w },
        { report with cached := report.cached + (items.filterMap usable).length })
    | (.error _, w) =>
      ({ s with world := w }, { report with failedBatches := report.failedBatches + 1 })

/-- Asks for the rules of some policies, each once and in chunks, and caches what comes back. -/
def prefetch (src : Source σ) (s : Session σ) (ps : List PolicyRef) :
    Session σ × PrefetchReport :=
  let unique := firstPerRule [] ps
  (chunks s.batchSize s.batchSize_pos unique).foldl (prefetchChunk src)
    (s, { requested := ps.length, unique := unique.length })

end Session

end Compliance
