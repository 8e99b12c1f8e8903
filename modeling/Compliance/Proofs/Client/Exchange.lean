import Compliance.Proofs.Client.Requests

/-!
# A session and any source

What passes between a session and its source, when nothing is known about the source: it may fail
at any time, leave items out, or bring items that nobody asked for.  A log beside the source's own
state records every request with its reply, and leaves everything else as it is.

* `Exchange` : a request and its reply.
* `Source.logged`, `Session.logged` : a source and a session with a log.
* `Source.exchanges` : what becomes of several requests, one after the other.
* `Session.prefetch_eq` : a prefetch in terms of its requests and their exchanges.
* `Session.Account` : the account of a prefetch, in terms of its exchanges.
* `Session.prefetch_account` : every prefetch, over every source, goes by that account.

The requests of a prefetch are fixed before the first reply arrives, so the proof takes them as
given and follows the replies; that they have the right shape is a matter of lists alone.
-/

namespace Compliance

/-! ### Exchanges -/

/-- A request for some policies, and the reply to it. -/
structure Exchange where
  asked : List PolicyRef
  reply : Except ClientError (List BatchItem)

namespace Exchange

/-- Whether the request failed. -/
def failed (x : Exchange) : Bool :=
  match x.reply with
  | .ok _ => false
  | .error _ => true

/-- The items that the reply brings; a failure brings none. -/
def items (x : Exchange) : List BatchItem :=
  match x.reply with
  | .ok items => items
  | .error _ => []

/-- What an item says about its own rule, if it has an outcome and no error. -/
def said : BatchItem → Option (RuleId × Resolution)
  | ⟨_, rule, some r, none⟩ => some (rule, r)
  | _ => none

/-- What the reply says about rules, in its own order. -/
def outcomes (x : Exchange) : List (RuleId × Resolution) :=
  x.items.filterMap said

theorem said_eq_some_iff {item : BatchItem} {r : RuleId} {o : Resolution} :
    said item = some (r, o) ↔ item.rule = r ∧ item.error = none ∧ item.outcome = some o := by
  obtain ⟨index, rule, outcome, error⟩ := item
  cases outcome <;> cases error <;> simp [said]

theorem mem_outcomes_iff {x : Exchange} {r : RuleId} {o : Resolution} :
    (r, o) ∈ x.outcomes ↔
      ∃ item ∈ x.items, item.rule = r ∧ item.error = none ∧ item.outcome = some o := by
  rw [outcomes, List.mem_filterMap]
  simp only [said_eq_some_iff]

end Exchange

namespace Source

variable {σ : Type}

/-- What becomes of some requests that are made one after the other, and the state that they
leave. -/
def exchanges (src : Source σ) : σ → List (List PolicyRef) → List Exchange × σ
  | w, [] => ([], w)
  | w, ps :: rest =>
    let (reply, w) := src.fetch w ps
    let (xs, w) := exchanges src w rest
    (⟨ps, reply⟩ :: xs, w)

/-- A source that keeps a log of its exchanges. -/
def logged (src : Source σ) : Source (σ × List Exchange) where
  fetch w ps :=
    let (reply, w') := src.fetch w.1 ps
    (reply, (w', w.2 ++ [⟨ps, reply⟩]))

theorem fetch_logged (src : Source σ) (w : σ) (log : List Exchange) (ps : List PolicyRef) :
    src.logged.fetch (w, log) ps =
      ((src.fetch w ps).1, ((src.fetch w ps).2, log ++ [⟨ps, (src.fetch w ps).1⟩])) := rfl

theorem exchanges_cons (src : Source σ) (w : σ) (ps : List PolicyRef)
    (rest : List (List PolicyRef)) :
    src.exchanges w (ps :: rest) =
      (⟨ps, (src.fetch w ps).1⟩ :: (src.exchanges (src.fetch w ps).2 rest).1,
        (src.exchanges (src.fetch w ps).2 rest).2) := rfl

theorem map_asked_exchanges (src : Source σ) (w : σ) (requests : List (List PolicyRef)) :
    (src.exchanges w requests).1.map Exchange.asked = requests := by
  induction requests generalizing w with
  | nil => rfl
  | cons ps rest ih => rw [exchanges_cons, List.map_cons, ih]

theorem exchanges_logged (src : Source σ) (w : σ) (log : List Exchange)
    (requests : List (List PolicyRef)) :
    src.logged.exchanges (w, log) requests =
      ((src.exchanges w requests).1,
        ((src.exchanges w requests).2, log ++ (src.exchanges w requests).1)) := by
  induction requests generalizing w log with
  | nil => rw [exchanges, exchanges, List.append_nil]
  | cons ps rest ih =>
    rw [exchanges_cons, exchanges_cons, fetch_logged]
    simp only [ih, List.append_assoc, List.cons_append, List.nil_append]

end Source

namespace Session

variable {σ : Type}

/-- A session whose source keeps a log. -/
def logged (s : Session σ) (log : List Exchange) : Session (σ × List Exchange) where
  cache := s.cache
  batchSize := s.batchSize
  world := (s.world, log)
  batchSize_pos := s.batchSize_pos

/-! ### Chunks and their replies -/

/-- A cache with some outcomes written in their order. -/
def writeAll (c : Cache) (outcomes : List (RuleId × Resolution)) : Cache :=
  outcomes.foldl (fun c e => c.insert e.1 e.2) c

theorem writeAll_append (c : Cache) (os os' : List (RuleId × Resolution)) :
    writeAll c (os ++ os') = writeAll (writeAll c os) os' :=
  List.foldl_append ..

theorem usable_eq_said : usable = Exchange.said := by
  funext item
  obtain ⟨index, rule, outcome, error⟩ := item
  cases outcome <;> cases error <;> rfl

/-- A chunk that fails leaves the cache alone, and any other has what it says written. -/
theorem prefetchChunk_eq (src : Source σ) (s : Session σ) (report : PrefetchReport)
    (chunk : List PolicyRef) :
    let x : Exchange := ⟨chunk, (src.fetch s.world chunk).1⟩
    prefetchChunk src (s, report) chunk =
      ({ s with cache := writeAll s.cache x.outcomes, world := (src.fetch s.world chunk).2 },
        { report with
          batches := report.batches + 1
          failedBatches := report.failedBatches + [x].countP Exchange.failed
          cached := report.cached + x.outcomes.length }) := by
  intro x
  rw [prefetchChunk]
  cases h : src.fetch s.world chunk with
  | mk reply w =>
    cases reply with
    | ok items => simp [x, h, Exchange.failed, Exchange.outcomes, Exchange.items, store, writeAll,
        usable_eq_said]
    | error e => simp [x, h, Exchange.failed, Exchange.outcomes, Exchange.items, writeAll]

/-- **The chunks of a prefetch in terms of their exchanges.** -/
theorem foldl_prefetchChunk (src : Source σ) (s : Session σ) (report : PrefetchReport)
    (chunks : List (List PolicyRef)) :
    let xs := (src.exchanges s.world chunks).1
    chunks.foldl (prefetchChunk src) (s, report) =
      ({ s with
          cache := writeAll s.cache (xs.flatMap Exchange.outcomes)
          world := (src.exchanges s.world chunks).2 },
        { report with
          batches := report.batches + chunks.length
          failedBatches := report.failedBatches + xs.countP Exchange.failed
          cached := report.cached + (xs.flatMap Exchange.outcomes).length }) := by
  induction chunks generalizing s report with
  | nil => rfl
  | cons chunk chunks ih =>
    intro xs
    rw [List.foldl_cons, prefetchChunk_eq, ih]
    simp only [xs, Source.exchanges_cons, List.flatMap_cons, writeAll_append, List.length_cons,
      List.length_append, List.countP_cons, List.countP_nil, Nat.zero_add, Nat.add_assoc,
      Nat.add_comm, Nat.add_left_comm]

/-! ### The account of a prefetch -/

/-- The requests that a prefetch makes. -/
def requests (s : Session σ) (ps : List PolicyRef) : List (List PolicyRef) :=
  chunks s.batchSize s.batchSize_pos (firstPerRule [] ps)

/-- **A prefetch in terms of its exchanges.** -/
theorem prefetch_eq (src : Source σ) (s : Session σ) (ps : List PolicyRef) :
    let xs := (src.exchanges s.world (s.requests ps)).1
    s.prefetch src ps =
      ({ s with
          cache := writeAll s.cache (xs.flatMap Exchange.outcomes)
          world := (src.exchanges s.world (s.requests ps)).2 },
        { requested := ps.length
          unique := (firstPerRule [] ps).length
          batches := (s.requests ps).length
          failedBatches := xs.countP Exchange.failed
          cached := (xs.flatMap Exchange.outcomes).length }) := by
  intro xs
  rw [prefetch]
  refine (foldl_prefetchChunk src s _ (s.requests ps)).trans ?_
  simp only [xs, Nat.zero_add]

theorem prefetch_logged (src : Source σ) (s : Session σ) (log : List Exchange)
    (ps : List PolicyRef) :
    (s.logged log).prefetch src.logged ps =
      ((s.prefetch src ps).1.logged (log ++ (src.exchanges s.world (s.requests ps)).1),
        (s.prefetch src ps).2) := by
  have hrequests : (s.logged log).requests ps = s.requests ps := rfl
  have hworld : (s.logged log).world = (s.world, log) := rfl
  rw [prefetch_eq, prefetch_eq, hrequests, hworld, src.exchanges_logged]
  rfl

/-- What a prefetch of some policies does in chunks of a given size: its exchanges, what becomes of
the cache, and the report. -/
structure Account (size : Nat) (ps : List PolicyRef) (before : Cache) (xs : List Exchange)
    (after : Cache) (report : PrefetchReport) : Prop where
  /-- Each rule is asked for once, at the first policy that names it, in order. -/
  asked : xs.flatMap Exchange.asked = firstMentions ps
  /-- No two requests ask for one rule. -/
  disjoint : xs.Pairwise fun x y => ∀ p ∈ x.asked, ∀ q ∈ y.asked, p.rule ≠ q.rule
  /-- No request is empty, and none asks for more than the size allows. -/
  within : ∀ x ∈ xs, 1 ≤ x.asked.length ∧ x.asked.length ≤ size
  /-- All requests but the last ask for as much as the size allows. -/
  full : ∀ x ∈ xs.dropLast, x.asked.length = size
  /-- Without policies there are no requests. -/
  silent : ps = [] → xs = []
  /-- What the replies say is written, reply by reply and item by item. -/
  cache : after = writeAll before (xs.flatMap Exchange.outcomes)
  requested : report.requested = ps.length
  unique : report.unique = (ps.map PolicyRef.rule).toFinset.card
  batches : report.batches = xs.length
  /-- There are as few requests as the size allows. -/
  fewest : xs.length = (report.unique + size - 1) / size
  failedBatches : report.failedBatches = xs.countP Exchange.failed
  cached : report.cached = (xs.flatMap Exchange.outcomes).length

/-- The exchanges over the chunks of the policies that are kept make an account. -/
theorem account_of_chunks {size : Nat} (h : 0 < size) (ps : List PolicyRef) (before : Cache)
    {xs : List Exchange} (hxs : xs.map Exchange.asked = chunks size h (firstPerRule [] ps)) :
    Account size ps before xs (writeAll before (xs.flatMap Exchange.outcomes))
      { requested := ps.length
        unique := (firstPerRule [] ps).length
        batches := xs.length
        failedBatches := xs.countP Exchange.failed
        cached := (xs.flatMap Exchange.outcomes).length } := by
  have hasked : xs.flatMap Exchange.asked = firstPerRule [] ps := by
    rw [List.flatMap_def, hxs, flatten_chunks]
  have hchunk : ∀ x ∈ xs, x.asked ∈ chunks size h (firstPerRule [] ps) := fun x hx =>
    hxs ▸ List.mem_map_of_mem hx
  refine
    { asked := hasked.trans (firstPerRule_eq_firstMentions ps)
      disjoint := ?_
      within := fun x hx => length_of_mem_chunks (hchunk x hx)
      full := fun x hx => ?_
      silent := ?_
      cache := rfl
      requested := rfl
      unique := length_firstPerRule ps
      batches := rfl
      fewest := ?_
      failedBatches := rfl
      cached := rfl }
  · have hpairs := pairwise_firstPerRule [] ps
    rw [← hasked, List.pairwise_flatMap] at hpairs
    exact hpairs.2
  · have hlast : x.asked ∈ (chunks size h (firstPerRule [] ps)).dropLast := by
      rw [← hxs, ← List.map_dropLast]
      exact List.mem_map_of_mem hx
    exact length_of_mem_dropLast_chunks hlast
  · rintro rfl
    rw [firstPerRule, chunks] at hxs
    exact List.map_eq_nil_iff.mp hxs
  · rw [← List.length_map (f := Exchange.asked), hxs, length_chunks]

/-- **What a prefetch does, over any source.**  A session that asks for up to `n` rules at once,
where none counts as one, makes the same exchanges whether or not a log is kept.  They are those
that the source gives for the requests one after the other, they are what is added to the log, and
the cache and the report are those of the account. -/
theorem prefetch_account (src : Source σ) (s : Session σ) (n : Nat) (ps : List PolicyRef)
    (log : List Exchange) :
    ∃ (xs : List Exchange) (w : σ) (after : Cache) (report : PrefetchReport),
      src.exchanges s.world (xs.map Exchange.asked) = (xs, w) ∧
      (s.withBatchSize n).prefetch src ps =
        ({ s.withBatchSize n with cache := after, world := w }, report) ∧
      ((s.withBatchSize n).logged log).prefetch src.logged ps =
        (({ s.withBatchSize n with cache := after, world := w } : Session σ).logged (log ++ xs),
          report) ∧
      Account (max n 1) ps s.cache xs after report := by
  have hsize : 0 < max n 1 := by omega
  let requests := (s.withBatchSize n).requests ps
  let xs := (src.exchanges s.world requests).1
  have hxs : xs.map Exchange.asked = requests := src.map_asked_exchanges s.world requests
  have hlength : requests.length = xs.length := by rw [← hxs, List.length_map]
  refine ⟨xs, (src.exchanges s.world requests).2, _, _, by rw [hxs], ?_, ?_,
    account_of_chunks hsize ps s.cache hxs⟩
  · rw [prefetch_eq, ← hlength]
    rfl
  · rw [prefetch_logged, prefetch_eq, ← hlength]
    rfl

end Session

end Compliance
