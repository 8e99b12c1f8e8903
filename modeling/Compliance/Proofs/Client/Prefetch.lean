import Compliance.Client.Source
import Compliance.Proofs.Client.Requests
import Compliance.Proofs.Table

/-!
# Sessions over a service in the same program

What a session asks for and what it keeps when its source is a service that answers every batch.
A prefetch goes through the policies in chunks, but the chunks and their size leave no trace in the
cache: it holds, for every rule that is mentioned, the outcome of the first policy that mentions it.

* `Session.resolve_of_cached`, `Session.retrieve_of_cached`, `Session.resolve_local_of_uncached` :
  asking for one policy.
* `Session.prefetch_local`, `Session.get?_prefetch_local` : a prefetch, and the cache it leaves.
-/

namespace Compliance

/-! ### What is kept -/

/-- A cache with what a service knows about one policy more. -/
def Service.teach (w : Service) (c : Cache) (p : PolicyRef) : Cache :=
  c.insert p.rule (w.resolve p)

theorem get?_foldl_teach (w : Service) (c : Cache) {ps : List PolicyRef}
    (h : ps.Pairwise (fun p q => p.rule ≠ q.rule)) (r : RuleId) :
    (ps.foldl w.teach c).get? r = ((ps.find? (·.rule = r)).map w.resolve).or (c.get? r) := by
  have hwrite : ps.foldl w.teach c =
      (ps.map fun p => (p.rule, w.resolve p)).foldl (fun c e => c.insert e.1 e.2) c := by
    rw [List.foldl_map]
    rfl
  have hkeys : (ps.map fun p => (p.rule, w.resolve p)).Pairwise fun a b => a.1 ≠ b.1 :=
    List.pairwise_map.mpr h
  rw [hwrite, Table.get?_foldl_insert_of_pairwise c hkeys, List.find?_map, Option.map_map]
  rfl

namespace Session

theorem filterMap_usable (w : Service) (ps : List PolicyRef) :
    (w.resolveItems ps).filterMap usable = ps.map fun p => (p.rule, w.resolve p) := by
  have hitems (f : Nat → Nat) :
      (ps.mapIdx fun i p => BatchItem.resolved (f i) p.rule (w.resolve p)).filterMap usable =
        ps.map fun p => (p.rule, w.resolve p) := by
    induction ps generalizing f with
    | nil => rfl
    | cons p ps ih =>
      rw [List.mapIdx_cons, List.filterMap_cons, List.map_cons]
      exact congrArg ((p.rule, w.resolve p) :: ·) (ih fun i => f (i + 1))
  exact hitems id

theorem store_resolveItems (w : Service) (c : Cache) (ps : List PolicyRef) :
    store c (w.resolveItems ps) = ps.foldl w.teach c := by
  rw [store, filterMap_usable, List.foldl_map]
  rfl

/-! ### Retrieval and prefetching -/

theorem resolve_of_cached {σ : Type} (src : Source σ) {s : Session σ} {p : PolicyRef}
    {r : Resolution} (h : s.cache.get? p.rule = some r) : s.resolve src p = (.ok r, s) := by
  rw [resolve, h]

theorem retrieve_of_cached {σ : Type} (src : Source σ) {s : Session σ} {e : Evidence}
    {o : Resolution} (h : s.cache.get? e.policy.rule = some o) :
    s.retrieve src e = (.ok (o.enrich e.verdict), s) := by
  rw [retrieve, resolve_of_cached src h]
  rfl

theorem resolve_local_of_uncached {s : Session Service} {p : PolicyRef}
    (h : s.cache.get? p.rule = none) :
    s.resolve Service.source p =
      (.ok (s.world.resolve p), { s with cache := s.world.teach s.cache p }) := by
  rw [resolve, h]
  rfl

theorem prefetchChunk_local (s : Session Service) (report : PrefetchReport)
    (chunk : List PolicyRef) :
    prefetchChunk Service.source (s, report) chunk =
      ({ s with cache := chunk.foldl s.world.teach s.cache },
        { report with batches := report.batches + 1, cached := report.cached + chunk.length }) := by
  have hlength : ((s.world.resolveItems chunk).filterMap usable).length = chunk.length := by
    rw [filterMap_usable, List.length_map]
  rw [← store_resolveItems, ← hlength]
  rfl

theorem foldl_prefetchChunk_local (cs : List (List PolicyRef)) (s : Session Service)
    (report : PrefetchReport) :
    cs.foldl (prefetchChunk Service.source) (s, report) =
      ({ s with cache := cs.flatten.foldl s.world.teach s.cache },
        { report with
          batches := report.batches + cs.length
          cached := report.cached + cs.flatten.length }) := by
  induction cs generalizing s report with
  | nil => rfl
  | cons chunk cs ih =>
    rw [List.foldl_cons, prefetchChunk_local, ih]
    simp [Nat.add_assoc, Nat.add_comm 1]

/-- **A prefetch teaches the cache the first policy for each rule**, and no chunk of it fails. -/
theorem prefetch_local (s : Session Service) (ps : List PolicyRef) :
    s.prefetch Service.source ps =
      ({ s with cache := (firstPerRule [] ps).foldl s.world.teach s.cache },
        { requested := ps.length
          unique := (firstPerRule [] ps).length
          batches := (chunks s.batchSize s.batchSize_pos (firstPerRule [] ps)).length
          failedBatches := 0
          cached := (firstPerRule [] ps).length }) := by
  rw [prefetch, foldl_prefetchChunk_local, flatten_chunks]
  simp

/-- After a prefetch the cache holds the outcome of the first policy that names a rule, and for the
other rules what it held before. -/
theorem get?_prefetch_local (s : Session Service) (ps : List PolicyRef) (r : RuleId) :
    (s.prefetch Service.source ps).1.cache.get? r =
      ((ps.find? (·.rule = r)).map s.world.resolve).or (s.cache.get? r) := by
  rw [prefetch_local]
  show ((firstPerRule [] ps).foldl s.world.teach s.cache).get? r = _
  rw [get?_foldl_teach s.world s.cache (pairwise_firstPerRule [] ps) r,
    find?_firstPerRule (List.not_mem_nil) ps]

end Session

end Compliance
