import Compliance.Proofs.Client.Delivery
import Compliance.Proofs.Client.Enrich

/-!
# What a session fetches

A session asks its source about a rule on its own only if it knows nothing about the rule, and what
it has learned it never forgets.  So it fetches no rule twice with success, however its user mixes
retrievals, prefetches and passes over records, and whatever its source replies.  A reply without an
answer teaches it nothing.

* `Exchange.Unanswered` : a reply without an answer to the one policy that was asked for.
* `Session.Retrieval`, `Session.exists_retrieval` : all that a retrieval can do.
* `Session.Use`, `Session.uses` : what a user does with a session, passes over records included.
* `Session.uses_eq_calls` : a pass asks what the retrievals for its records' evidence would ask.
* `Session.fetched` : the rules that retrievals have fetched, read off the log of the source.
* `Session.fetched_once` : whole runs.
-/

namespace Compliance

namespace Exchange

/-- The reply holds no answer to the one policy that was asked for. -/
inductive Unanswered (x : Exchange) : Prop where
  | failed (h : x.failed = true)
  | empty (h : x.items = [])
  | spoilt {item : BatchItem} (first : x.items.head? = some item)
      (h : item.error.isSome = true ∨ item.outcome = none)

theorem unanswered_iff {x : Exchange} : x.Unanswered ↔ ∀ o, ¬ x.Opens o := by
  constructor
  · rintro h o ⟨item, r, hhead, hsaid⟩
    obtain ⟨-, herror, houtcome⟩ := said_eq_some_iff.mp hsaid
    cases h with
    | failed h =>
      have hitems : x.items = [] := by
        rw [items]
        cases hreply : x.reply with
        | ok items =>
          rw [failed, hreply] at h
          cases h
        | error err => rfl
      rw [hitems] at hhead
      cases hhead
    | empty h =>
      rw [h] at hhead
      cases hhead
    | spoilt first h =>
      rw [hhead] at first
      obtain rfl := Option.some.inj first
      rcases h with h | h
      · rw [herror] at h
        cases h
      · rw [houtcome] at h
        cases h
  · intro h
    cases hitems : x.items with
    | nil => exact .empty hitems
    | cons item rest =>
      have hhead : x.items.head? = some item := by rw [hitems]; rfl
      cases herror : item.error with
      | some message => exact .spoilt hhead (.inl (by rw [herror]; rfl))
      | none =>
        cases houtcome : item.outcome with
        | none => exact .spoilt hhead (.inr houtcome)
        | some o =>
          have hsaid : said item = some (item.rule, o) :=
            said_eq_some_iff.mpr ⟨rfl, herror, houtcome⟩
          exact absurd ⟨item, item.rule, hhead, hsaid⟩ (h o)

end Exchange

namespace Session

variable {σ : Type} (src : Source σ)

/-! ### One retrieval -/

/-- What a retrieval comes to: its answer, the session that it leaves, and what passes between the
session and its source meanwhile. -/
inductive Retrieval (s : Session σ) (e : Evidence) :
    Except ClientError Enrichment × Session σ → List Exchange → Prop where
  /-- A rule that is cached is not asked for. -/
  | cached {o : Resolution} (known : s.cache.get? e.policy.rule = some o) :
      Retrieval s e (.ok (o.enrich e.verdict), s) []
  /-- Any other is asked for on its own.  An answer is kept under the rule. -/
  | fetched {o : Resolution} (unknown : s.cache.get? e.policy.rule = none)
      (opens : (src.single s.world e.policy).Opens o) :
      Retrieval s e
        (.ok (o.enrich e.verdict),
          { s with
            cache := s.cache.insert e.policy.rule o
            world := (src.fetch s.world [e.policy]).2 })
        [src.single s.world e.policy]
  /-- Without an answer the cache stays as it is. -/
  | refused {err : ClientError} (unknown : s.cache.get? e.policy.rule = none)
      (unanswered : (src.single s.world e.policy).Unanswered) :
      Retrieval s e (.error err, { s with world := (src.fetch s.world [e.policy]).2 })
        [src.single s.world e.policy]

theorem world_fetchOne (w : σ) (p : PolicyRef) :
    (src.fetchOne w p).2 = (src.fetch w [p]).2 := by
  rw [Source.fetchOne]
  rcases src.fetch w [p] with ⟨items | err, w'⟩ <;> rfl

/-- **All that a retrieval can do**, and that a log makes no difference to it. -/
theorem exists_retrieval (s : Session σ) (e : Evidence) :
    ∃ xs : List Exchange, s.Retrieval src e (s.retrieve src e) xs ∧
      ∀ log, (s.logged log).retrieve src.logged e =
        ((s.retrieve src e).1, (s.retrieve src e).2.logged (log ++ xs)) := by
  cases h : s.cache.get? e.policy.rule with
  | some o =>
    refine ⟨[], ?_, fun log => ?_⟩
    · rw [retrieve_of_cached src h]
      exact .cached h
    · have hlogged : (s.logged log).cache.get? e.policy.rule = some o := h
      rw [retrieve_of_cached src h, retrieve_of_cached src.logged hlogged, List.append_nil]
  | none =>
    refine ⟨[src.single s.world e.policy], ?_, fun log => ?_⟩
    · have hworld := world_fetchOne src s.world e.policy
      rw [retrieve, resolve, h]
      cases hfetch : src.fetchOne s.world e.policy with
      | mk reply w =>
        obtain rfl : w = (src.fetch s.world [e.policy]).2 := by rw [← hworld, hfetch]
        cases reply with
        | ok o =>
          have hopens := (src.fetchOne_eq_ok_iff s.world e.policy o).mp (by rw [hfetch])
          exact .fetched h hopens
        | error err =>
          refine .refused h (Exchange.unanswered_iff.mpr fun o hopens => ?_)
          have hok := (src.fetchOne_eq_ok_iff s.world e.policy o).mpr hopens
          rw [hfetch] at hok
          cases hok
    · obtain ⟨heq, -⟩ := exists_resolve_logged src h log
      rw [retrieve, retrieve, heq]

/-! ### What is known stays known -/

theorem isSome_get?_insert {c : Cache} {r : RuleId} (h : (c.get? r).isSome) (r' : RuleId)
    (o : Resolution) : ((c.insert r' o).get? r).isSome := by
  rw [Table.get?_insert]
  by_cases hr : r = r'
  · rw [if_pos hr]
    rfl
  · rw [if_neg hr]
    exact h

theorem isSome_get?_writeAll {c : Cache} {r : RuleId} (h : (c.get? r).isSome)
    (os : List (RuleId × Resolution)) : ((writeAll c os).get? r).isSome := by
  rw [writeAll, Table.get?_foldl_insert, Option.isSome_or, h, Bool.or_true]

theorem isSome_get?_call {s : Session σ} {r : RuleId} (h : (s.cache.get? r).isSome) (c : Call) :
    ((s.call src c).cache.get? r).isSome := by
  cases c with
  | retrieve e =>
    obtain ⟨xs, hretrieval, -⟩ := s.exists_retrieval src e
    show ((s.retrieve src e).2.cache.get? r).isSome
    generalize s.retrieve src e = result at hretrieval
    cases hretrieval with
    | cached known => exact h
    | fetched unknown opens => exact isSome_get?_insert h _ _
    | refused unknown unanswered => exact h
  | prefetch ps =>
    rw [call, prefetch_eq]
    exact isSome_get?_writeAll h _
  | resize n => exact h

theorem isSome_get?_calls {s : Session σ} {r : RuleId} (h : (s.cache.get? r).isSome)
    (cs : List Call) : ((s.calls src cs).cache.get? r).isSome := by
  induction cs generalizing s with
  | nil => exact h
  | cons c cs ih => exact ih (isSome_get?_call src h c)

/-! ### Uses -/

/-- What a user does with a session. -/
inductive Use where
  | call (c : Call)
  /-- The records of a list are enriched in order; a record without a time was made `now`. -/
  | process (now : Time.Instant) (rs : List Record)

/-- The session after a use. -/
def use (s : Session σ) : Use → Session σ
  | .call c => s.call src c
  | .process now rs => (s.enrichRecords src now rs).2.2

/-- The session after several uses. -/
def uses (s : Session σ) (us : List Use) : Session σ :=
  us.foldl (use src) s

/-- The retrieval that a record gives rise to, if it carries evidence. -/
def retrieval? (now : Time.Instant) (r : Record) : Option Call :=
  match r.evidence now with
  | .ok e => some (.retrieve e)
  | .error _ => none

/-- The calls of which a use consists. -/
def Use.calls : Use → List Call
  | .call c => [c]
  | .process now rs => rs.filterMap (retrieval? now)

theorem session_pass (now : Time.Instant) (s : Session σ) (rs : List Record) :
    (s.pass src now rs).2 = s.calls src (rs.filterMap (retrieval? now)) := by
  induction rs generalizing s with
  | nil => rfl
  | cons r rs ih =>
    rw [pass_cons, List.filterMap_cons]
    show ((s.enrichRecord src now r).2.2.pass src now rs).2 = _
    rw [ih]
    cases he : r.evidence now with
    | error e =>
      rw [enrichRecord_of_error src now he]
      simp only [retrieval?, he]
    | ok e =>
      rw [session_enrichRecord src now he]
      simp only [retrieval?, he]
      rfl

/-- **A pass over records asks what the retrievals for their evidence would ask**, so every run is
one of calls. -/
theorem uses_eq_calls (s : Session σ) (us : List Use) :
    s.uses src us = s.calls src (us.flatMap Use.calls) := by
  induction us generalizing s with
  | nil => rfl
  | cons u us ih =>
    have huse : s.use src u = s.calls src u.calls := by
      cases u with
      | call c => rfl
      | process now rs =>
        rw [use, enrichRecords_eq]
        exact session_pass src now s rs
    show (s.use src u).uses src us = _
    rw [ih, huse, calls, calls, calls, List.flatMap_cons, List.foldl_append]

/-! ### What retrievals fetch -/

/-- The rule that a call has fetched on its own: the source was asked for it, and there is an
answer. -/
def fetchedBy (s : Session σ) : Call → List RuleId
  | .retrieve e =>
    match (s.logged []).retrieve src.logged e with
    | (.ok _, t) => if t.world.2.isEmpty then [] else [e.policy.rule]
    | (.error _, _) => []
  | _ => []

/-- The rules that the retrievals of a run have fetched, in order. -/
def fetched : Session σ → List Call → List RuleId
  | _, [] => []
  | s, c :: cs => s.fetchedBy src c ++ fetched (s.call src c) cs

/-- A call fetches a rule only if it is not known before, and then it is known afterwards. -/
theorem fetchedBy_spec (s : Session σ) (c : Call) :
    s.fetchedBy src c = [] ∨
      ∃ r, s.fetchedBy src c = [r] ∧ s.cache.get? r = none ∧
        ((s.call src c).cache.get? r).isSome := by
  cases c with
  | retrieve e =>
    obtain ⟨xs, hretrieval, hlogged⟩ := s.exists_retrieval src e
    rw [fetchedBy, hlogged [], call]
    generalize s.retrieve src e = result at hretrieval
    cases hretrieval with
    | cached known => exact .inl rfl
    | fetched unknown opens =>
      refine .inr ⟨e.policy.rule, rfl, unknown, ?_⟩
      rw [Table.get?_insert_self]
      rfl
    | refused unknown unanswered => exact .inl rfl
  | prefetch ps => exact .inl rfl
  | resize n => exact .inl rfl

/-- No rule is fetched twice, and none that is known from the start. -/
theorem nodup_fetched (s : Session σ) (cs : List Call) :
    (s.fetched src cs).Nodup ∧ ∀ r ∈ s.fetched src cs, s.cache.get? r = none := by
  induction cs generalizing s with
  | nil => exact ⟨.nil, by simp [fetched]⟩
  | cons c cs ih =>
    obtain ⟨hnodup, hunknown⟩ := ih (s.call src c)
    -- what the later calls fetch was not known before the first call either
    have hlater : ∀ r ∈ fetched src (s.call src c) cs, s.cache.get? r = none := by
      intro r hr
      by_contra hknown
      have hsome := isSome_get?_call src (Option.isSome_iff_ne_none.mpr hknown) c
      rw [hunknown r hr] at hsome
      cases hsome
    rw [fetched]
    rcases s.fetchedBy_spec src c with hnone | ⟨r, hone, hbefore, hafter⟩
    · rw [hnone, List.nil_append]
      exact ⟨hnodup, hlater⟩
    · rw [hone, List.singleton_append]
      refine ⟨List.nodup_cons.mpr ⟨fun hr => ?_, hnodup⟩,
        List.forall_mem_cons.mpr ⟨hbefore, hlater⟩⟩
      rw [hunknown r hr] at hafter
      cases hafter

/-! ### Whole runs -/

/-- **A session fetches every rule at most once, and fails without a trace.**  A run of retrievals,
prefetches and passes over records is a run of calls.  The rules of its cache stay in it.  At every
point of it a retrieval for a rule that is cached succeeds without asking the source; a retrieval
for another asks for its own policy alone, and either fails and leaves the cache as it was, if the
reply holds no answer, or succeeds and adds the answer under its rule.  So no rule is fetched twice
in the course of the run. -/
theorem fetched_once (s : Session σ) (us : List Use) :
    s.uses src us = s.calls src (us.flatMap Use.calls) ∧
    s.cache.keys ⊆ (s.uses src us).cache.keys ∧
    (∀ (cs : List Call) (e : Evidence),
      let t := s.calls src cs
      ∃ xs : List Exchange, t.Retrieval src e (t.retrieve src e) xs ∧
        ∀ log, (t.logged log).retrieve src.logged e =
          ((t.retrieve src e).1, (t.retrieve src e).2.logged (log ++ xs))) ∧
    (s.fetched src (us.flatMap Use.calls)).Nodup ∧
    (s.fetched src (us.flatMap Use.calls)).Disjoint s.cache.keys := by
  obtain ⟨hnodup, hunknown⟩ := s.nodup_fetched src (us.flatMap Use.calls)
  refine ⟨s.uses_eq_calls src us, fun r hr => ?_, fun cs e => ?_, hnodup, fun r hr hkey => ?_⟩
  · rw [Table.mem_keys_iff] at hr ⊢
    rw [uses_eq_calls]
    exact isSome_get?_calls src hr _
  · exact (s.calls src cs).exists_retrieval src e
  · rw [Table.mem_keys_iff, hunknown r hr] at hkey
    cases hkey

end Session

end Compliance
