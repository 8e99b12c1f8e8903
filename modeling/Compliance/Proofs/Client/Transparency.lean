import Compliance.Proofs.Client.Provenance
import Compliance.Proofs.Service.Routes

/-!
# How far a cache can be seen through

The cache keeps metadata under the rule alone, while the service selects a resolver by the engine.
So what a session retrieves comes from the resolver of the engine that was named when the rule was
last written, and with two engines that share the id of a rule this may be another engine than the
one of the evidence.

* `Session.transparency` : what a session retrieves from a service that does not change, and when
  it is what the service says.
* `Session.engines_share_entries` : two engines that share a rule, and a session that answers for
  one of them with the metadata of the other.
-/

namespace Compliance

theorem Resolution.enrich_inj {r r' : Resolution} {v : Verdict} :
    r.enrich v = r'.enrich v ↔ r = r' := by
  constructor
  · intro h
    obtain ⟨status, metadata⟩ := r
    obtain ⟨status', metadata'⟩ := r'
    injection h with hmetadata hstatus
    exact congrArg₂ Resolution.mk hstatus hmetadata
  · rintro rfl
    rfl

namespace Session

/-! ### Runs without changes -/

/-- The policies that an event refers to. -/
def Event.policies : Event → List PolicyRef
  | .retrieve e => [e.policy]
  | .prefetch ps => ps
  | _ => []

/-- Whether an event changes the service. -/
def Event.IsChange : Event → Prop
  | .change _ => True
  | _ => False

theorem foldl_apply_of_steady {evs : List Event} (h : ∀ ev ∈ evs, ¬ ev.IsChange) (w : Service) :
    evs.foldl Event.apply w = w := by
  induction evs with
  | nil => rfl
  | cons ev evs ih =>
    have hev : ev.apply w = w := by
      have hsteady := h ev (List.mem_cons_self ..)
      cases ev with
      | change c => exact absurd trivial hsteady
      | _ => rfl
    rw [List.foldl_cons, hev]
    exact ih fun ev' hev' => h ev' (List.mem_cons_of_mem ev hev')

theorem Origin.eq_of_steady {w w' : Service} {evs : List Event} {r : RuleId} {engine : EngineName}
    (h : Origin w evs r w' engine) (hsteady : ∀ ev ∈ evs, ¬ ev.IsChange) : w' = w := by
  cases h with
  | @prefetched before later ps p history first latest =>
    refine foldl_apply_of_steady (fun ev hev => hsteady ev ?_) w
    rw [history]
    exact List.mem_append_left _ hev
  | @retrieved before later e history rule first unprefetched =>
    refine foldl_apply_of_steady (fun ev hev => hsteady ev ?_) w
    rw [history]
    exact List.mem_append_left _ hev

theorem Origin.exists_policy {w w' : Service} {evs : List Event} {r : RuleId}
    {engine : EngineName} (h : Origin w evs r w' engine) :
    ∃ ev ∈ evs, ∃ p ∈ ev.policies, p.rule = r ∧ p.engine = engine := by
  cases h with
  | @prefetched before later ps p history first latest =>
    have hrule : p.rule = r := by simpa using List.find?_some first
    refine ⟨.prefetch ps, ?_, p, List.mem_of_find?_eq_some first, hrule, rfl⟩
    rw [history]
    exact List.mem_append_right before (List.mem_cons_self ..)
  | @retrieved before later e history rule first unprefetched =>
    refine ⟨.retrieve e, ?_, e.policy, List.mem_singleton_self _, rule, rfl⟩
    rw [history]
    exact List.mem_append_right before (List.mem_cons_self ..)

/-- A retrieval gives what the service of its rule's origin says, asked for the origin's engine,
where the retrieval itself is part of the history. -/
theorem retrieve_of_origin {w w' : Service} {evs : List Event} {e : Evidence}
    {engine : EngineName} (h : Origin w (evs ++ [.retrieve e]) e.policy.rule w' engine)
    (hverdict : (w'.resolvers.select engine).verdict = Evidence.verdict) (n : Nat) :
    ((reached w n evs).retrieve Service.source e).1 =
      .ok ((w'.resolvers.select engine).enrich w'.stores e w'.scope) := by
  have hentry := get?_of_origin h n
  obtain ⟨o, ho, hretrieve⟩ := exists_retrieve_eq (reached w n evs) e
  have hstep : (reached w n (evs ++ [.retrieve e])).cache.get? e.policy.rule = some o := by
    rw [reached_append]
    exact ho
  rw [hretrieve, Resolver.enrich, hverdict]
  rw [hstep] at hentry
  obtain rfl := Option.some.inj hentry
  rfl

/-! ### What is retrieved -/

/-- **What a session retrieves from a service that does not change**, and whose resolvers judge
evidence by its outcome.  It is what the resolver of one engine says about the evidence: of the
engine that the first policy for the rule names in the latest prefetch with the rule, or else of the
engine of the first retrieval for the rule, this one included.  That is what the service answers for
the evidence exactly if this engine's resolver and that of the evidence's own engine know the same
about the rule, and always so if the rule has been referred to for no other engine. -/
theorem transparency {w : Service} (hw : w.JudgesByOutcome) (n : Nat) (evs : List Event)
    (e : Evidence) (hsteady : ∀ ev ∈ evs, ¬ ev.IsChange) :
    (∃ engine, Origin w (evs ++ [.retrieve e]) e.policy.rule w engine) ∧
    (∀ engine, Origin w (evs ++ [.retrieve e]) e.policy.rule w engine →
      ((reached w n evs).retrieve Service.source e).1 =
          .ok ((w.resolvers.select engine).enrich w.stores e w.scope) ∧
        (((reached w n evs).retrieve Service.source e).1 = .ok (w.enrich e) ↔
          (w.resolvers.select engine).metadata w.stores e.policy.rule w.scope =
            (w.resolvers.select e.policy.engine).metadata w.stores e.policy.rule w.scope)) ∧
    ((∀ ev ∈ evs, ∀ p ∈ ev.policies, p.rule = e.policy.rule → p.engine = e.policy.engine) →
      ((reached w n evs).retrieve Service.source e).1 = .ok (w.enrich e)) ∧
    ∀ (b : BodyReader) (now : Time.Instant) (req : Request), req.path = "/v1/enrich" →
      req.method = "POST" → req.read b now .enrichRequest = .ok e →
        w.respond b now req = .json 200 Wire.enrichResponse (w.enrich e) := by
  have hsteady' : ∀ ev ∈ evs ++ [.retrieve e], ¬ ev.IsChange := by
    intro ev hev
    rcases List.mem_append.mp hev with hev | hev
    · exact hsteady ev hev
    · obtain rfl := List.mem_singleton.mp hev
      exact id
  have horigin : ∃ engine, Origin w (evs ++ [.retrieve e]) e.policy.rule w engine := by
    have href : ∃ ev ∈ evs ++ [.retrieve e],
        ev.Prefetches e.policy.rule ∨ ev.Retrieves e.policy.rule :=
      ⟨.retrieve e, List.mem_append_right evs (List.mem_singleton_self _), .inr rfl⟩
    obtain ⟨w', engine, h⟩ := exists_origin w href
    obtain rfl := h.eq_of_steady hsteady'
    exact ⟨engine, h⟩
  refine ⟨horigin, fun engine h => ⟨retrieve_of_origin h (hw engine) n, ?_⟩, fun hsame => ?_, ?_⟩
  · rw [retrieve_of_origin h (hw engine) n, Except.ok.injEq, Resolver.enrich, hw engine,
      hw.enrich_eq]
    exact Resolution.enrich_inj
  · obtain ⟨engine, h⟩ := horigin
    obtain ⟨ev, hev, p, hp, hrule, rfl⟩ := h.exists_policy
    have hengine : p.engine = e.policy.engine := by
      rcases List.mem_append.mp hev with hev | hev
      · exact hsame ev hev p hp hrule
      · obtain rfl := List.mem_singleton.mp hev
        obtain rfl := List.mem_singleton.mp hp
        rfl
    rw [retrieve_of_origin h (hw p.engine) n, hengine]
    rfl
  · intro b now req hpath hmethod hread
    exact w.respond_enrich b now hpath hmethod hread

/-- A rule that a plan maps, fetched ahead and then retrieved, both for its one engine. -/
theorem transparency_sample :
    ((reached .sample 50 [.prefetch [.sample]]).retrieve Service.source .sample).1 =
        .ok (Service.sample.enrich .sample) ∧
      Service.sample.enrich .sample = ⟨.sample, .mapped, .compliant⟩ := by
  have hsteady : ∀ ev ∈ [Event.prefetch [.sample]], ¬ ev.IsChange := by
    simp [Event.IsChange]
  have hw : Service.sample.JudgesByOutcome := Service.judgesByOutcome_basic _ _
  obtain ⟨-, -, hsame, -⟩ := transparency hw 50 [.prefetch [.sample]] .sample hsteady
  refine ⟨hsame fun ev hev p hp _ => ?_, by decide +kernel⟩
  obtain rfl := List.mem_singleton.mp hev
  obtain rfl := List.mem_singleton.mp hp
  rfl

/-! ### Two engines with one rule -/

/-- A resolver that puts every rule into one category. -/
def categoryResolver (category : String) : Resolver where
  id := category
  metadata _ rule _ :=
    let r := Resolution.unmapped rule
    { r with metadata := { r.metadata with category } }
  registerPlan s _ _ := (s, 0)

/-- An engine. -/
def engineA : EngineName := ⟨"a", by decide, by decide⟩

/-- Another engine. -/
def engineB : EngineName := ⟨"b", by decide, by decide⟩

/-- A service with a resolver for each of two engines. -/
def twoEngines : Service :=
  let resolvers := (Table.empty.insert engineA (categoryResolver "A")).insert engineB
    (categoryResolver "B")
  { Service.basic {} {} with resolvers := ⟨resolvers, .basic Stores.shared⟩ }

theorem judgesByOutcome_twoEngines : twoEngines.JudgesByOutcome := by
  intro engine
  simp only [twoEngines, ResolverSet.select, Table.get?_insert]
  split
  · rfl
  split
  · rfl
  · rfl

/-- A passed evaluation of one rule, by a given engine. -/
def evaluatedBy (engine : EngineName) : Evidence :=
  ⟨⟨engine, PolicyRef.sample.rule⟩, .passed, .latest⟩

/-- **Engines that share a rule share its entry**: once the rule has been retrieved for one of them,
evidence of the other gets the metadata of the first, which is not what the service says. -/
theorem engines_share_entries :
    ((reached twoEngines 50 [.retrieve (evaluatedBy engineA)]).retrieve
        Service.source (evaluatedBy engineB)).1 =
      .ok ((categoryResolver "A").enrich {} (evaluatedBy engineB) {}) ∧
    twoEngines.enrich (evaluatedBy engineB) =
      (categoryResolver "B").enrich {} (evaluatedBy engineB) {} ∧
    ¬ ∀ (w : Service) (n : Nat) (evs : List Event) (e : Evidence), w.JudgesByOutcome →
      (∀ ev ∈ evs, ¬ ev.IsChange) →
        ((reached w n evs).retrieve Service.source e).1 = .ok (w.enrich e) := by
  have hretrieve : ((reached twoEngines 50 [.retrieve (evaluatedBy engineA)]).retrieve
        Service.source (evaluatedBy engineB)).1 =
      .ok ((categoryResolver "A").enrich {} (evaluatedBy engineB) {}) := rfl
  have henrich : twoEngines.enrich (evaluatedBy engineB) =
      (categoryResolver "B").enrich {} (evaluatedBy engineB) {} := rfl
  refine ⟨hretrieve, henrich, fun h => ?_⟩
  have hsteady : ∀ ev ∈ [Event.retrieve (evaluatedBy engineA)], ¬ ev.IsChange := by
    simp [Event.IsChange]
  have heq := h twoEngines 50 [.retrieve (evaluatedBy engineA)] (evaluatedBy engineB)
    judgesByOutcome_twoEngines hsteady
  rw [hretrieve, henrich] at heq
  have hcategory := congrArg (fun r => r.map fun e => e.metadata.category) heq
  exact absurd hcategory (by decide)

end Session

end Compliance
