import Compliance.Proofs.Client.Delivery
import Compliance.Proofs.Client.Provenance

/-!
# What has been fetched ahead

A service in the same program answers every request in full.  So a prefetch over it leaves nothing
out, and how many rules are asked for at once shows in the number of requests alone: chunks are
resolved item by item, and every rule is in one chunk.  What has been fetched ahead is then there
for all retrievals that follow, and the service is not asked again.

* `Service.known?` : what a service knows about the rules of some policies.
* `Session.get?_prefetch_eq` : what a prefetch leaves in the cache.
* `Session.calls_retrieve_of_cached`, `Session.run_retrieve_of_cached` : retrievals for rules that
  are cached.
* `Session.prefetch_complete` : a prefetch in chunks of any size, and the retrievals after it.
-/

namespace Compliance

/-- What a service knows about a rule of some policies: what the resolver for the first policy with
the rule says about it. -/
def Service.known? (w : Service) (ps : List PolicyRef) (r : RuleId) : Option Resolution :=
  (ps.find? (·.rule = r)).map fun p => (w.resolvers.select p.engine).metadata w.stores r w.scope

theorem Service.known?_eq (w : Service) (ps : List PolicyRef) (r : RuleId) :
    w.known? ps r = (ps.find? (·.rule = r)).map w.resolve := by
  rw [known?]
  cases h : ps.find? (·.rule = r) with
  | none => rfl
  | some p =>
    have hrule : p.rule = r := by simpa using List.find?_some h
    rw [Option.map_some, Option.map_some, resolve, hrule]

namespace Session

variable {σ : Type}

/-! ### Retrievals from the cache -/

/-- Retrievals for rules that are cached leave a session as it is, and with it whatever its source
keeps. -/
theorem calls_retrieve_of_cached (src : Source σ) (s : Session σ) {es : List Evidence}
    (h : ∀ e ∈ es, (s.cache.get? e.policy.rule).isSome) :
    s.calls src (es.map Call.retrieve) = s := by
  induction es with
  | nil => rfl
  | cons e es ih =>
    obtain ⟨hfirst, hrest⟩ := List.forall_mem_cons.mp h
    obtain ⟨o, ho⟩ := Option.isSome_iff_exists.mp hfirst
    have hcall : s.call src (.retrieve e) = s := by rw [call, retrieve_of_cached src ho]
    rw [List.map_cons, calls_cons, hcall]
    exact ih hrest

theorem run_retrieve_of_cached (src : Source Service) (s : Session Service)
    (o : Evidence → Resolution) {es : List Evidence}
    (h : ∀ e ∈ es, s.cache.get? e.policy.rule = some (o e)) :
    s.run src (es.map Event.retrieve) =
      (es.map fun e => .retrieved (.ok ((o e).enrich e.verdict)), s) := by
  induction es with
  | nil => rfl
  | cons e es ih =>
    obtain ⟨hfirst, hrest⟩ := List.forall_mem_cons.mp h
    have hstep : s.step src (.retrieve e) = (.retrieved (.ok ((o e).enrich e.verdict)), s) := by
      rw [step, retrieve_of_cached src hfirst]
    rw [List.map_cons, List.map_cons, run, hstep]
    simp only [ih hrest]

/-! ### Prefetches -/

/-- **What a prefetch leaves in the cache**, whatever the size of its chunks. -/
theorem get?_prefetch_eq (s : Session Service) (n : Nat) (ps : List PolicyRef) (r : RuleId) :
    ((s.withBatchSize n).prefetch Service.source ps).1.cache.get? r =
      (s.world.known? ps r).or (s.cache.get? r) := by
  rw [get?_prefetch_local, s.world.known?_eq]
  rfl

theorem report_prefetch_eq (s : Session Service) (n : Nat) (ps : List PolicyRef) :
    let rules := (ps.map PolicyRef.rule).toFinset.card
    ((s.withBatchSize n).prefetch Service.source ps).2 =
      { requested := ps.length
        unique := rules
        batches := (rules + max n 1 - 1) / max n 1
        failedBatches := 0
        cached := rules } := by
  intro rules
  rw [prefetch_local, length_chunks, length_firstPerRule]
  rfl

/-- **A prefetch over a service leaves nothing out.**  Whatever is cached before and however many
rules are asked for at once, where none counts as one, the cache holds afterwards what the service
knows about each rule of the list, and otherwise what it held before.  No request fails, everything
is cached, and another size makes no difference but to the number of requests.  Retrievals for rules
of the list are then answered from the cache, and the service gets no request. -/
theorem prefetch_complete (s : Session Service) (ps : List PolicyRef) (n : Nat) :
    let ahead := (s.withBatchSize n).prefetch Service.source ps
    let rules := (ps.map PolicyRef.rule).toFinset.card
    (∀ r, ahead.1.cache.get? r = (s.world.known? ps r).or (s.cache.get? r)) ∧
    (∀ r, (s.world.known? ps r).isSome ↔ ∃ p ∈ ps, p.rule = r) ∧
    ahead.2 =
      { requested := ps.length
        unique := rules
        batches := (rules + max n 1 - 1) / max n 1
        failedBatches := 0
        cached := rules } ∧
    (∀ m, ((s.withBatchSize m).prefetch Service.source ps).1.cache = ahead.1.cache) ∧
    ∀ es : List Evidence, (∀ e ∈ es, ∃ p ∈ ps, p.rule = e.policy.rule) →
      (∃ o : Evidence → Resolution,
        (∀ e ∈ es, s.world.known? ps e.policy.rule = some (o e)) ∧
        ahead.1.run Service.source (es.map Event.retrieve) =
          (es.map fun e => .retrieved (.ok ((o e).enrich e.verdict)), ahead.1)) ∧
      ∀ log, (ahead.1.logged log).calls Service.source.logged (es.map Call.retrieve) =
        ahead.1.logged log := by
  intro ahead rules
  have hcache : ∀ r, ahead.1.cache.get? r = (s.world.known? ps r).or (s.cache.get? r) :=
    s.get?_prefetch_eq n ps
  have hknown : ∀ r, (s.world.known? ps r).isSome ↔ ∃ p ∈ ps, p.rule = r := by
    intro r
    simp [Service.known?]
  refine ⟨hcache, hknown, s.report_prefetch_eq n ps, ?_, ?_⟩
  · intro m
    refine Table.eq_of_get? ?_
    intro r
    rw [hcache, s.get?_prefetch_eq m ps]
  · intro es hes
    let o (e : Evidence) := (s.world.known? ps e.policy.rule).getD (.unmapped e.policy.rule)
    have ho : ∀ e ∈ es, s.world.known? ps e.policy.rule = some (o e) := by
      intro e he
      obtain ⟨r, hr⟩ := Option.isSome_iff_exists.mp ((hknown _).mpr (hes e he))
      simp [o, hr]
    have hentry : ∀ e ∈ es, ahead.1.cache.get? e.policy.rule = some (o e) := by
      intro e he
      rw [hcache, ho e he, Option.some_or]
    refine ⟨⟨o, ho, run_retrieve_of_cached _ _ o hentry⟩, ?_⟩
    intro log
    refine calls_retrieve_of_cached _ _ ?_
    intro e he
    show (ahead.1.cache.get? e.policy.rule).isSome
    simp [hentry e he]

/-- Two rules, of which a plan maps one, fetched ahead one at a time; the mapped one is named twice,
and then retrieved twice. -/
theorem prefetch_complete_sample :
    let s : Session Service := { world := .sample }
    let other : PolicyRef := ⟨PolicyRef.sample.engine, ⟨"AC-2", by decide, by decide⟩⟩
    let ahead := (s.withBatchSize 0).prefetch Service.source [.sample, other, .sample]
    ahead.1.cache.get? PolicyRef.sample.rule = some (.mapped .sample) ∧
    ahead.1.cache.get? other.rule = some (.unmapped other.rule) ∧
    (ahead.1.logged []).calls Service.source.logged ([.sample, .sample].map Call.retrieve) =
      ahead.1.logged [] := by
  intro s other ahead
  obtain ⟨hcache, -, -, -, hretrieve⟩ := prefetch_complete s [.sample, other, .sample] 0
  obtain ⟨-, hlog⟩ := hretrieve [.sample, .sample] (by simp [Evidence.sample])
  refine ⟨(hcache _).trans ?_, (hcache _).trans ?_, hlog []⟩ <;> decide +kernel

end Session

end Compliance
