import Compliance.Proofs.Client.Run
import Mathlib.Data.List.Induction

/-!
# Where the entries of a cache come from

Retrieval writes an entry where there is none, and a prefetch writes over entries.  So the entry of
a rule goes back to one event of the run: the latest prefetch that names the rule, or, if none does,
the first retrieval for it.  What was true of the service at that event is what the cache holds,
and later changes of the service do not show.

* `Event.Prefetches`, `Event.Retrieves` : how an event refers to a rule.
* `Origin` : the service and the engine at the event to which an entry goes back, read off the
  history alone.
* `Session.get?_step_local` : what one event makes of one entry.
* `Session.get?_of_origin` : the entry is the one of its origin.
* `Session.provenance` : entries and answers over whole runs.
-/

namespace Compliance

namespace Session

/-! ### References to a rule -/

/-- Whether an event is a prefetch of policies of which one names a rule. -/
def Event.Prefetches (r : RuleId) : Event → Prop
  | .prefetch ps => ∃ p ∈ ps, p.rule = r
  | _ => False

/-- Whether an event is a retrieval for a rule. -/
def Event.Retrieves (r : RuleId) : Event → Prop
  | .retrieve e => e.policy.rule = r
  | _ => False

theorem exists_first {r : RuleId} {ps : List PolicyRef}
    (h : (Event.prefetch ps).Prefetches r) : ∃ p, ps.find? (·.rule = r) = some p := by
  obtain ⟨p, hp, hr⟩ := h
  rw [← Option.isSome_iff_exists, List.find?_isSome]
  exact ⟨p, hp, by simpa using hr⟩

theorem find?_eq_none_of_not_prefetches {r : RuleId} {ps : List PolicyRef}
    (h : ¬ (Event.prefetch ps).Prefetches r) : ps.find? (·.rule = r) = none := by
  rw [List.find?_eq_none]
  intro p hp hr
  exact h ⟨p, hp, by simpa using hr⟩

/-! ### One event -/

/-- What an event makes of the entry of a rule, at a service as it is then. -/
def Event.entry (w : Service) (r : RuleId) (old : Option Resolution) : Event → Option Resolution
  | .retrieve e => if e.policy.rule = r then old.or (some (w.resolve e.policy)) else old
  | .prefetch ps => ((ps.find? (·.rule = r)).map w.resolve).or old
  | _ => old

theorem get?_retrieve_local (s : Session Service) (e : Evidence) (r : RuleId) :
    (s.retrieve Service.source e).2.cache.get? r =
      (Event.retrieve e).entry s.world r (s.cache.get? r) := by
  rw [retrieve, Event.entry]
  cases h : s.cache.get? e.policy.rule with
  | some o =>
    rw [resolve_of_cached Service.source h]
    by_cases hr : e.policy.rule = r
    · rw [if_pos hr, ← hr, h]
      rfl
    · rw [if_neg hr]
  | none =>
    rw [resolve_local_of_uncached h]
    show (s.cache.insert e.policy.rule (s.world.resolve e.policy)).get? r = _
    rw [Table.get?_insert]
    by_cases hr : e.policy.rule = r
    · rw [if_pos hr, if_pos hr.symm, ← hr, h]
      rfl
    · rw [if_neg hr, if_neg (Ne.symm hr)]

/-- **The entry of a rule after one event** depends on the entry before, the event and the
service. -/
theorem get?_step_local (s : Session Service) (ev : Event) (r : RuleId) :
    (s.step Service.source ev).2.cache.get? r = ev.entry s.world r (s.cache.get? r) := by
  cases ev with
  | retrieve e => exact get?_retrieve_local s e r
  | prefetch ps => exact get?_prefetch_local s ps r
  | resize n => rfl
  | change c => rfl

theorem Event.entry_of_unmentioned {ev : Event} {r : RuleId} (hp : ¬ ev.Prefetches r)
    (hr : ¬ ev.Retrieves r) (w : Service) (old : Option Resolution) : ev.entry w r old = old := by
  cases ev with
  | retrieve e => exact if_neg hr
  | prefetch ps =>
    rw [Event.entry, find?_eq_none_of_not_prefetches hp]
    rfl
  | resize n => rfl
  | change c => rfl

/-- An entry stays as it is until a prefetch names its rule. -/
theorem Event.entry_of_cached {ev : Event} {r : RuleId} (hp : ¬ ev.Prefetches r) (w : Service)
    (o : Resolution) : ev.entry w r (some o) = some o := by
  cases ev with
  | retrieve e =>
    rw [Event.entry]
    split <;> rfl
  | prefetch ps =>
    rw [Event.entry, find?_eq_none_of_not_prefetches hp]
    rfl
  | resize n => rfl
  | change c => rfl

/-! ### Many events -/

theorem get?_after_of_unmentioned {s : Session Service} {evs : List Event} {r : RuleId}
    (h : ∀ ev ∈ evs, ¬ ev.Prefetches r ∧ ¬ ev.Retrieves r) :
    (s.after Service.source evs).cache.get? r = s.cache.get? r := by
  induction evs generalizing s with
  | nil => rfl
  | cons ev evs ih =>
    obtain ⟨hp, hr⟩ := h ev (List.mem_cons_self ..)
    rw [after_cons, ih fun ev' hev => h ev' (List.mem_cons_of_mem ev hev), get?_step_local,
      Event.entry_of_unmentioned hp hr]

theorem get?_after_of_cached {s : Session Service} {evs : List Event} {r : RuleId} {o : Resolution}
    (ho : s.cache.get? r = some o) (h : ∀ ev ∈ evs, ¬ ev.Prefetches r) :
    (s.after Service.source evs).cache.get? r = some o := by
  induction evs generalizing s with
  | nil => exact ho
  | cons ev evs ih =>
    have hstep : (s.step Service.source ev).2.cache.get? r = some o := by
      rw [get?_step_local, ho, Event.entry_of_cached (h ev (List.mem_cons_self ..))]
    rw [after_cons]
    exact ih hstep fun ev' hev => h ev' (List.mem_cons_of_mem ev hev)

/-! ### Origins -/

/-- The service and the engine from which the entry of a rule comes, in a run that begins at a
service and an empty cache. -/
inductive Origin (w : Service) (evs : List Event) (r : RuleId) : Service → EngineName → Prop where
  /-- The first policy for the rule in the latest prefetch that names it. -/
  | prefetched {before later : List Event} {ps : List PolicyRef} {p : PolicyRef}
      (history : evs = before ++ .prefetch ps :: later)
      (first : ps.find? (·.rule = r) = some p)
      (latest : ∀ ev ∈ later, ¬ ev.Prefetches r) :
      Origin w evs r (before.foldl Event.apply w) p.engine
  /-- The first retrieval for the rule, if no prefetch names it. -/
  | retrieved {before later : List Event} {e : Evidence}
      (history : evs = before ++ .retrieve e :: later)
      (rule : e.policy.rule = r)
      (first : ∀ ev ∈ before, ¬ ev.Retrieves r)
      (unprefetched : ∀ ev ∈ evs, ¬ ev.Prefetches r) :
      Origin w evs r (before.foldl Event.apply w) e.policy.engine

theorem Origin.append {w w' : Service} {evs : List Event} {r : RuleId} {engine : EngineName}
    (h : Origin w evs r w' engine) {more : List Event} (hmore : ∀ ev ∈ more, ¬ ev.Prefetches r) :
    Origin w (evs ++ more) r w' engine := by
  cases h with
  | @prefetched before later ps p history first latest =>
    have history' : evs ++ more = before ++ .prefetch ps :: (later ++ more) := by
      rw [history, List.append_assoc, List.cons_append]
    refine .prefetched history' first fun ev hev => ?_
    exact (List.mem_append.mp hev).elim (latest ev) (hmore ev)
  | @retrieved before later e history rule first unprefetched =>
    have history' : evs ++ more = before ++ .retrieve e :: (later ++ more) := by
      rw [history, List.append_assoc, List.cons_append]
    refine .retrieved history' rule first fun ev hev => ?_
    exact (List.mem_append.mp hev).elim (unprefetched ev) (hmore ev)

theorem exists_origin (w : Service) {evs : List Event} {r : RuleId}
    (h : ∃ ev ∈ evs, ev.Prefetches r ∨ ev.Retrieves r) : ∃ w' engine, Origin w evs r w' engine := by
  -- on the last event: it is an origin itself, or it leaves an earlier one in place
  induction evs using List.reverseRecOn with
  | nil =>
    obtain ⟨ev, hev, -⟩ := h
    cases hev
  | append_singleton evs ev ih =>
    by_cases hp : ev.Prefetches r
    · cases ev with
      | prefetch ps =>
        obtain ⟨p, hfirst⟩ := exists_first hp
        exact ⟨_, _, .prefetched rfl hfirst (by simp)⟩
      | _ => exact absurd hp id
    by_cases hbefore : ∃ ev ∈ evs, ev.Prefetches r ∨ ev.Retrieves r
    · obtain ⟨w', engine, horigin⟩ := ih hbefore
      exact ⟨w', engine, horigin.append (by simpa using hp)⟩
    have hnone : ∀ ev' ∈ evs, ¬ ev'.Prefetches r ∧ ¬ ev'.Retrieves r := by
      intro ev' hev'
      exact not_or.mp fun hev => hbefore ⟨ev', hev', hev⟩
    have hr : ev.Retrieves r := by
      obtain ⟨ev', hev', href⟩ := h
      rcases List.mem_append.mp hev' with hev' | hev'
      · exact absurd ⟨ev', hev', href⟩ hbefore
      · obtain rfl := List.mem_singleton.mp hev'
        exact href.resolve_left hp
    cases ev with
    | retrieve e =>
      refine ⟨_, _, .retrieved rfl hr (fun ev' hev' => (hnone ev' hev').2) fun ev' hev' => ?_⟩
      rcases List.mem_append.mp hev' with hev' | hev'
      · exact (hnone ev' hev').1
      · obtain rfl := List.mem_singleton.mp hev'
        exact hp
    | _ => exact absurd hr id

/-- The entry of a rule is what its origin's service knew about it, asked for its origin's
engine. -/
theorem get?_of_origin {w w' : Service} {evs : List Event} {r : RuleId} {engine : EngineName}
    (h : Origin w evs r w' engine) (n : Nat) :
    (reached w n evs).cache.get? r =
      some ((w'.resolvers.select engine).metadata w'.stores r w'.scope) := by
  cases h with
  | @prefetched before later ps p history first latest =>
    have hrule : p.rule = r := by simpa using List.find?_some first
    -- the prefetch writes the entry, and nothing later writes over it
    rw [history, reached_append, after_cons]
    refine get?_after_of_cached ?_ latest
    rw [get?_step_local, Event.entry, first, world_reached, ← hrule]
    rfl
  | @retrieved before later e history rule first unprefetched =>
    rw [history] at unprefetched ⊢
    -- up to the retrieval there is no entry, so the retrieval writes it
    have hbefore : (reached w n before).cache.get? r = none := by
      refine get?_after_of_unmentioned fun ev hev => ⟨?_, first ev hev⟩
      exact unprefetched ev (List.mem_append_left _ hev)
    have hlater : ∀ ev ∈ later, ¬ ev.Prefetches r := fun ev hev =>
      unprefetched ev (List.mem_append_right before (List.mem_cons_of_mem _ hev))
    rw [reached_append, after_cons]
    refine get?_after_of_cached ?_ hlater
    rw [get?_step_local, Event.entry, if_pos rule, hbefore, world_reached, ← rule]
    rfl

/-! ### Whole runs -/

theorem exists_retrieve_eq (s : Session Service) (e : Evidence) :
    ∃ o, (s.retrieve Service.source e).2.cache.get? e.policy.rule = some o ∧
      (s.retrieve Service.source e).1 = .ok (o.enrich e.verdict) := by
  cases h : s.cache.get? e.policy.rule with
  | some o =>
    rw [retrieve_of_cached Service.source h]
    exact ⟨o, h, rfl⟩
  | none =>
    rw [retrieve, resolve_local_of_uncached h]
    exact ⟨s.world.resolve e.policy, Table.get?_insert_self .., rfl⟩

/-- **Where the entries of a cache come from.**  After every run from an empty cache a rule has an
entry exactly if some event referred to it, and then the history has an origin for it, whose
resolution the entry is.  Every retrieval gives the entry as it stands afterwards, with the verdict
of its own evidence, and until a prefetch names the rule again no event makes a difference to
that. -/
theorem provenance (w : Service) (n : Nat) (evs : List Event) (r : RuleId) :
    ((reached w n evs).cache.contains r = true ↔
      ∃ ev ∈ evs, ev.Prefetches r ∨ ev.Retrieves r) ∧
    ((∃ ev ∈ evs, ev.Prefetches r ∨ ev.Retrieves r) →
      ∃ w' engine, Origin w evs r w' engine) ∧
    (∀ w' engine, Origin w evs r w' engine →
      (reached w n evs).cache.get? r =
        some ((w'.resolvers.select engine).metadata w'.stores r w'.scope)) ∧
    (∀ e : Evidence, e.policy.rule = r →
      ∃ o, ((reached w n evs).retrieve Service.source e).2.cache.get? r = some o ∧
        ((reached w n evs).retrieve Service.source e).1 = .ok (o.enrich e.verdict)) ∧
    ∀ (later : List Event) (e : Evidence), e.policy.rule = r →
      (∃ ev ∈ evs, ev.Prefetches r ∨ ev.Retrieves r) → (∀ ev ∈ later, ¬ ev.Prefetches r) →
        ((reached w n (evs ++ later)).retrieve Service.source e).1 =
          ((reached w n evs).retrieve Service.source e).1 := by
  refine ⟨⟨?_, ?_⟩, exists_origin w, ?_, ?_, ?_⟩
  · intro h
    by_contra hnone
    have hnone' : ∀ ev ∈ evs, ¬ ev.Prefetches r ∧ ¬ ev.Retrieves r := fun ev hev =>
      not_or.mp fun href => hnone ⟨ev, hev, href⟩
    rw [Table.contains, reached, get?_after_of_unmentioned hnone'] at h
    exact absurd h Bool.false_ne_true
  · intro h
    obtain ⟨w', engine, horigin⟩ := exists_origin w h
    rw [Table.contains, get?_of_origin horigin n]
    rfl
  · intro w' engine horigin
    exact get?_of_origin horigin n
  · rintro e rfl
    exact exists_retrieve_eq _ e
  · rintro later e rfl h hlater
    obtain ⟨w', engine, horigin⟩ := exists_origin w h
    rw [retrieve_of_cached Service.source (get?_of_origin horigin n),
      retrieve_of_cached Service.source (get?_of_origin (horigin.append hlater) n)]

/-- A rule that a plan maps, looked up and then fetched again once no catalog is in scope: what was
learned first stays until then, also if it is looked up again without the catalog. -/
theorem provenance_sample :
    let looked := [Event.retrieve .sample]
    let again := [Event.retrieve .sample, .change (.replaceScope []), .prefetch [.sample]]
    (reached .sample 0 looked).cache.contains PolicyRef.sample.rule = true ∧
    (reached .sample 0 again).cache.get? PolicyRef.sample.rule =
      some (.unmapped PolicyRef.sample.rule) ∧
    ((reached .sample 0 (looked ++ [.change (.replaceScope [])])).retrieve
        Service.source .sample).1 =
      ((reached .sample 0 looked).retrieve Service.source .sample).1 ∧
    ((reached .sample 0 looked).retrieve Service.source .sample).1 =
      .ok ⟨.sample, .mapped, .compliant⟩ := by
  intro looked again
  have href : ∃ ev ∈ looked,
      ev.Prefetches PolicyRef.sample.rule ∨ ev.Retrieves PolicyRef.sample.rule :=
    ⟨_, List.mem_singleton_self _, .inr rfl⟩
  have history : again =
      [Event.retrieve .sample, .change (.replaceScope [])] ++ .prefetch [.sample] :: [] := rfl
  have hlatest : Origin .sample again PolicyRef.sample.rule (Service.sample.replaceScope [])
      PolicyRef.sample.engine :=
    .prefetched history (by decide) (by simp)
  obtain ⟨hcontains, -, -, -, hlater⟩ := provenance .sample 0 looked PolicyRef.sample.rule
  obtain ⟨-, -, horigin, -, -⟩ := provenance .sample 0 again PolicyRef.sample.rule
  refine ⟨hcontains.mpr href, ?_, hlater _ _ rfl href ?_, by decide +kernel⟩
  · exact (horigin _ _ hlatest).trans (congrArg some Service.resolve_sample_replaceScope)
  · simp [Event.Prefetches]

end Session

end Compliance
