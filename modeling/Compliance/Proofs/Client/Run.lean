import Compliance.Proofs.Client.Prefetch
import Compliance.Proofs.Mapping.Join

/-!
# Runs of a session

A session works against a service while plans are registered and the scope changes.  A run is a list
of events in the order in which they happen: questions of the session's user, changes of its chunk
size, and changes of the service.  The source is a parameter, so that runs over different sources
can be compared.

* `Service.Change`, `Service.apply` : what may happen to a service.
* `Session.Event`, `Session.step`, `Session.run` : what may happen to a session, one event and many.
* `Session.fresh`, `Session.after` : a session before a run, and the one that a run leaves.
* `Session.reached`, `Session.world_reached` : over a service in the same program, from an empty
  cache, the session of a run and the service behind it.
-/

namespace Compliance

/-! ### Changes of a service -/

/-- A change of what a service answers from. -/
inductive Service.Change where
  /-- Plans are registered in the shared store. -/
  | registerPlan (catalog : CatalogId) (plans : List AssessmentPlan)
  /-- Plans are registered through a resolver, which puts them where it reads them. -/
  | registerThrough (r : Resolver) (catalog : CatalogId) (plans : List AssessmentPlan)
  /-- A catalog is put in scope, in place of an older one with its id. -/
  | insertCatalog (c : Catalog)
  /-- Other catalogs are in scope from now on. -/
  | replaceScope (cs : List Catalog)

/-- The service after a change. -/
def Service.apply (s : Service) : Change → Service
  | .registerPlan catalog plans => s.registerPlan catalog plans
  | .registerThrough r catalog plans =>
    { s with stores := (r.registerPlan s.stores catalog plans).1 }
  | .insertCatalog c => s.insertCatalog c
  | .replaceScope cs => s.replaceScope cs

theorem Service.maxBatchSize_apply (s : Service) (c : Change) :
    (s.apply c).maxBatchSize = s.maxBatchSize := by
  cases c <;> rfl

/-- All resolvers of a service judge evidence by its outcome. -/
def Service.JudgesByOutcome (w : Service) : Prop :=
  ∀ engine, (w.resolvers.select engine).verdict = Evidence.verdict

theorem Service.JudgesByOutcome.enrich_eq {w : Service} (hw : w.JudgesByOutcome) (e : Evidence) :
    w.enrich e = (w.resolve e.policy).enrich e.verdict := by
  rw [enrich, Resolver.enrich, hw]
  rfl

theorem Service.judgesByOutcome_basic (scope : Scope) (plans : PlanStore) :
    (basic scope plans).JudgesByOutcome :=
  fun _ => rfl

/-- A passed evaluation of a rule, to try runs on. -/
def Evidence.sample : Evidence := ⟨.sample, .passed, .latest⟩

/-- A service that knows the catalog and the plan for this rule. -/
def Service.sample : Service :=
  .basic (.ofCatalogs [.sample]) (PlanStore.register {} Catalog.sample.id [.sample])

theorem Service.resolve_sample_replaceScope :
    (Service.sample.replaceScope []).resolve .sample = .unmapped PolicyRef.sample.rule := by
  decide +kernel

namespace Session

/-! ### Events -/

/-- What happens to a session. -/
inductive Event where
  /-- Evidence is enriched. -/
  | retrieve (e : Evidence)
  /-- Policies are fetched ahead. -/
  | prefetch (ps : List PolicyRef)
  /-- From now on so many rules are asked for at once. -/
  | resize (n : Nat)
  /-- The service changes. -/
  | change (c : Service.Change)

/-- What the session's user sees of an event. -/
inductive Outcome where
  | retrieved (r : Except ClientError Enrichment)
  | prefetched (report : PrefetchReport)
  | nothing
  deriving DecidableEq

/-- A session with an empty cache that asks for so many rules at once. -/
def fresh (w : Service) (n : Nat) : Session Service :=
  ({ world := w } : Session Service).withBatchSize n

/-- One event. -/
def step (src : Source Service) (s : Session Service) : Event → Outcome × Session Service
  | .retrieve e => (.retrieved (s.retrieve src e).1, (s.retrieve src e).2)
  | .prefetch ps => (.prefetched (s.prefetch src ps).2, (s.prefetch src ps).1)
  | .resize n => (.nothing, s.withBatchSize n)
  | .change c => (.nothing, { s with world := s.world.apply c })

/-- A run: what the user sees of each event, and the session in the end. -/
def run (src : Source Service) : Session Service → List Event → List Outcome × Session Service
  | s, [] => ([], s)
  | s, ev :: evs =>
    let (o, s) := s.step src ev
    let (os, s) := run src s evs
    (o :: os, s)

/-- The session that a run leaves. -/
def after (src : Source Service) (s : Session Service) (evs : List Event) : Session Service :=
  (s.run src evs).2

theorem after_cons (src : Source Service) (s : Session Service) (ev : Event) (evs : List Event) :
    s.after src (ev :: evs) = (s.step src ev).2.after src evs := rfl

theorem after_append (src : Source Service) (s : Session Service) (evs more : List Event) :
    s.after src (evs ++ more) = (s.after src evs).after src more := by
  induction evs generalizing s with
  | nil => rfl
  | cons ev evs ih =>
    rw [List.cons_append, after_cons, after_cons]
    exact ih (s.step src ev).2

/-! ### Over a service in the same program -/

/-- The session that a run leaves, over a service in the same program and from an empty cache. -/
def reached (w : Service) (n : Nat) (evs : List Event) : Session Service :=
  (fresh w n).after Service.source evs

theorem reached_append (w : Service) (n : Nat) (evs more : List Event) :
    reached w n (evs ++ more) = (reached w n evs).after Service.source more :=
  after_append Service.source (fresh w n) evs more

theorem exists_retrieve_local (s : Session Service) (e : Evidence) :
    ∃ cache, (s.retrieve Service.source e).2 = { s with cache := cache } := by
  rw [retrieve]
  cases h : s.cache.get? e.policy.rule with
  | some r =>
    rw [resolve_of_cached Service.source h]
    exact ⟨s.cache, rfl⟩
  | none =>
    rw [resolve_local_of_uncached h]
    exact ⟨_, rfl⟩

theorem exists_prefetch_local (s : Session Service) (ps : List PolicyRef) :
    ∃ cache, (s.prefetch Service.source ps).1 = { s with cache := cache } := by
  rw [prefetch_local]
  exact ⟨_, rfl⟩

/-- The service after an event. -/
def Event.apply (w : Service) : Event → Service
  | .change c => w.apply c
  | _ => w

theorem world_step_local (s : Session Service) (ev : Event) :
    (s.step Service.source ev).2.world = ev.apply s.world := by
  cases ev with
  | retrieve e =>
    obtain ⟨cache, h⟩ := s.exists_retrieve_local e
    rw [step, h]
    rfl
  | prefetch ps =>
    obtain ⟨cache, h⟩ := s.exists_prefetch_local ps
    rw [step, h]
    rfl
  | resize n => rfl
  | change c => rfl

theorem world_after_local (s : Session Service) (evs : List Event) :
    (s.after Service.source evs).world = evs.foldl Event.apply s.world := by
  induction evs generalizing s with
  | nil => rfl
  | cons ev evs ih => rw [after_cons, ih, world_step_local, List.foldl_cons]

/-- The service behind a session depends on the changes alone. -/
theorem world_reached (w : Service) (n : Nat) (evs : List Event) :
    (reached w n evs).world = evs.foldl Event.apply w :=
  world_after_local (fresh w n) evs

end Session

end Compliance
