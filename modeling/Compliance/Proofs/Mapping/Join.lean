import Compliance.Mapping.Resolver
import Compliance.Proofs.Mapping.History
import Compliance.Proofs.Text.ByteOrder

/-!
# The join of plans and catalogs

The basic resolver answers as the documents say.  A catalog in scope maps a rule if the last
procedure of the rule, in all plans registered under the catalog, stands in the plan of a control
that the catalog has.  The least such catalog gives the answer, and without one the rule is
unmapped.

* `Matches`, `Maps` : whether the documents of one catalog map a rule, and what they say about it,
  without any index.
* `PlanStore.match?_eq_some_iff` : the resolver's look-ups find exactly that.
* `Resolver.metadata_basic_documented` : the answer of the resolver, for any history of
  registrations and of scope changes.
* `Catalog.sample`, `AssessmentPlan.sample`, `Metadata.sample` : a catalog and a plan that map a
  rule, and what they say about it.
-/

namespace Compliance

open Compliance.Text (trim)

/-- The documents of a catalog map a rule: the last procedure of the rule in the plans registered
under the catalog is in the plan of a control, and the last such control of the catalog in scope
gives the metadata, with the requirement around the procedure as the control. -/
inductive Maps (registrations : List Registration) (changes : List ScopeChange) (rule : RuleId)
    (id : CatalogId) : Metadata → Prop
  | intro {catalog : Catalog} {s : ProcedureSite} {k : ControlSite}
      (inScope : IsLast (fun c => c.id = id) (Scope.documents changes) catalog)
      (procedure : IsLast (fun s => trim s.procedure.id = rule.text)
        (procedureSites (plansUnder id registrations)) s)
      (control : IsLast (fun k => k.control.id = s.plan.controlId) (controlSites catalog) k) :
      Maps registrations changes rule id
        { controlId := s.requirement.id
          category := k.family.title
          catalogId := id.text
          remediation := some s.procedure.documentation
          requirements := k.control.standards.flatMap StandardMapping.requirements
          frameworks := k.control.standards.map StandardMapping.standard }

theorem Maps.unique {registrations : List Registration} {changes : List ScopeChange}
    {rule : RuleId} {id : CatalogId} {m m' : Metadata} (h : Maps registrations changes rule id m)
    (h' : Maps registrations changes rule id m') : m = m' := by
  obtain ⟨hc, hs, hk⟩ := h
  obtain ⟨hc', hs', hk'⟩ := h'
  obtain rfl := hc.unique hc'
  obtain rfl := hs.unique hs'
  obtain rfl := hk.unique hk'
  rfl

/-- A catalog matches a rule: it is in scope, and the last procedure of the rule in the plans
registered under it stands in the plan of a control that the catalog has. -/
def Matches (registrations : List Registration) (changes : List ScopeChange) (rule : RuleId)
    (id : CatalogId) : Prop :=
  ∃ catalog s, IsLast (fun c => c.id = id) (Scope.documents changes) catalog ∧
    IsLast (fun s => trim s.procedure.id = rule.text)
      (procedureSites (plansUnder id registrations)) s ∧
    ∃ k ∈ controlSites catalog, k.control.id = s.plan.controlId

theorem matches_iff {registrations : List Registration} {changes : List ScopeChange}
    {rule : RuleId} {id : CatalogId} :
    Matches registrations changes rule id ↔ ∃ m, Maps registrations changes rule id m := by
  constructor
  · rintro ⟨_, _, hc, hs, hk⟩
    obtain ⟨_, hk⟩ := exists_isLast_iff.2 hk
    exact ⟨_, hc, hs, hk⟩
  · rintro ⟨_, hc, hs, hk⟩
    exact ⟨_, _, hc, hs, exists_isLast_iff.1 ⟨_, hk⟩⟩

/-! ### One catalog -/

namespace PlanStore

theorem match?_eq_some_iff {rule : RuleId} {scope : Scope} {id : CatalogId} {plans : CatalogPlans}
    {m : Metadata} :
    match? rule scope id plans = some m ↔
      ∃ found procedure control, scope.get? id = some found ∧
        plans.procedures.get? rule.text = some procedure ∧
        found.controls.get? procedure.controlId = some control ∧
        m = ⟨procedure.requirementId, control.category, id.text, some procedure.documentation,
          control.requirements, control.frameworks⟩ := by
  simp only [match?, Option.bind_eq_bind, Option.bind_eq_some_iff, Option.pure_def,
    Option.some.injEq]
  constructor
  · rintro ⟨found, hf, procedure, hp, control, hk, rfl⟩
    exact ⟨found, procedure, control, hf, hp, hk, rfl⟩
  · rintro ⟨found, procedure, control, hf, hp, hk, rfl⟩
    exact ⟨found, hf, procedure, hp, control, hk, rfl⟩

/-- The look-ups under one catalog find what its documents say. -/
theorem exists_match?_iff_maps {registrations : List Registration} {changes : List ScopeChange}
    {rule : RuleId} {id : CatalogId} {m : Metadata} :
    (∃ plans, (ofHistory registrations).catalogs.get? id = some plans ∧
      match? rule (Scope.ofHistory changes) id plans = some m) ↔
    Maps registrations changes rule id m := by
  rw [get?_ofHistory]
  constructor
  · rintro ⟨plans, hplans, hm⟩
    split at hplans
    case isFalse => cases hplans
    obtain rfl := Option.some.inj hplans
    obtain ⟨found, procedure, control, hf, hp, hk, rfl⟩ := match?_eq_some_iff.1 hm
    obtain ⟨catalog, hcatalog, rfl⟩ := Scope.get?_ofHistory_eq_some_iff.1 hf
    obtain ⟨s, hs, rfl⟩ := ProcedureIndex.get?_ofPlans_eq_some_iff.1 hp
    obtain ⟨k, hsite, rfl⟩ := ControlIndex.get?_ofCatalog_eq_some_iff.1 hk
    exact ⟨hcatalog, hs, hsite⟩
  · rintro ⟨hcatalog, hs, hk⟩
    have hreg : id ∈ registrations.map Registration.catalog := by
      -- a catalog without registrations has no procedures
      by_contra hn
      rw [plansUnder_eq_nil hn] at hs
      exact not_isLast_nil hs
    refine ⟨_, if_pos hreg, match?_eq_some_iff.2 ⟨_, _, _,
      Scope.get?_ofHistory_eq_some_iff.2 ⟨_, hcatalog, rfl⟩,
      ProcedureIndex.get?_ofPlans_eq_some_iff.2 ⟨_, hs, rfl⟩,
      ControlIndex.get?_ofCatalog_eq_some_iff.2 ⟨_, hk, rfl⟩, rfl⟩⟩

end PlanStore

/-! ### All catalogs -/

/-- The first entry of a table, in the order of the keys, for which a question has an answer. -/
theorem Table.exists_of_findSome?_entries {κ α β : Type} [Ord κ] [Std.TransOrd κ]
    [Std.LawfulEqOrd κ] {t : Table κ α} {f : κ × α → Option β} {b : β}
    (h : t.entries.findSome? f = some b) :
    ∃ k v, t.get? k = some v ∧ f (k, v) = some b ∧
      ∀ k' v' b', t.get? k' = some v' → f (k', v') = some b' → k' ≠ k → compare k k' = .lt := by
  obtain ⟨before, ⟨k, v⟩, after, he, hb, hbefore⟩ := List.findSome?_eq_some_iff.1 h
  refine ⟨k, v, mem_entries_iff.1 (by simp [he]), hb, fun k' v' b' hv' hb' hne => ?_⟩
  have hasc := t.ascending
  rw [he, List.pairwise_append, List.pairwise_cons] at hasc
  have hmem := mem_entries_iff.2 hv'
  rw [he, List.mem_append, List.mem_cons] at hmem
  rcases hmem with hmem | hmem | hmem
  · simp [hbefore _ hmem] at hb'
  · exact absurd (Prod.mk.inj hmem).1 hne
  · exact hasc.2.1.1 _ hmem

/-- **The resolver answers as the documents say.**  After any registrations and any changes of the
scope, the least catalog that matches the rule, by the bytes of its id, gives the answer, and that
is the one thing its documents say about the rule; if no catalog matches, the rule is unmapped. -/
theorem Resolver.metadata_basic_documented (registrations : List Registration)
    (changes : List ScopeChange) (stores : Stores) (n : Nat) (rule : RuleId) :
    let answer := (Resolver.basic n).metadata (stores.insert n (.ofHistory registrations)) rule
      (Scope.ofHistory changes)
    (∃ id, Matches registrations changes rule id ∧
      (∀ id', Matches registrations changes rule id' → id' ≠ id → Text.ByteLT id.text id'.text) ∧
      ∃ m, Maps registrations changes rule id m ∧ answer = .mapped m) ∨
    ((∀ id, ¬ Matches registrations changes rule id) ∧ answer = .unmapped rule) := by
  intro answer
  have hanswer : answer =
      (PlanStore.ofHistory registrations).resolve rule (Scope.ofHistory changes) := by
    simp [answer, Resolver.basic, Stores.store]
  rw [hanswer, PlanStore.resolve]
  split
  case h_1 m hfind =>
    obtain ⟨id, plans, hplans, hm, hleast⟩ := Table.exists_of_findSome?_entries hfind
    have hmaps := PlanStore.exists_match?_iff_maps.1 ⟨plans, hplans, hm⟩
    refine .inl ⟨id, matches_iff.2 ⟨m, hmaps⟩, ?_, m, hmaps, rfl⟩
    intro id' h' hne
    obtain ⟨m', hmaps'⟩ := matches_iff.1 h'
    obtain ⟨plans', hplans', hm'⟩ := PlanStore.exists_match?_iff_maps.2 hmaps'
    exact (Text.compare_eq_lt_iff _ _).1 (hleast id' plans' m' hplans' hm' hne)
  case h_2 hfind =>
    refine .inr ⟨fun id h => ?_, rfl⟩
    obtain ⟨m, hmaps⟩ := matches_iff.1 h
    obtain ⟨plans, hplans, hm⟩ := PlanStore.exists_match?_iff_maps.2 hmaps
    have hnone := List.findSome?_eq_none_iff.1 hfind _ (Table.mem_entries_iff.2 hplans)
    simp [hm] at hnone

/-! ### A rule that is mapped -/

/-- A rule of an engine. -/
def PolicyRef.sample : PolicyRef :=
  ⟨⟨"opa", by decide, by decide⟩, ⟨"AC-1", by decide, by decide⟩⟩

/-- A catalog of one control. -/
def Catalog.sample : Catalog :=
  ⟨⟨"cat-A", by decide, by decide⟩, [⟨"Access Control", [⟨"AC", [⟨"NIST", ["AC-1a"]⟩]⟩]⟩]⟩

/-- A plan for that control, in which the rule checks a requirement. -/
def AssessmentPlan.sample : AssessmentPlan := ⟨"AC", [⟨"AC-1-REQ", [⟨"AC-1", "Rotate keys"⟩]⟩]⟩

/-- What the two say about the rule. -/
def Metadata.sample : Metadata :=
  ⟨"AC-1-REQ", "Access Control", "cat-A", some "Rotate keys", ["AC-1a"], ["NIST"]⟩

example :
    (PlanStore.register {} Catalog.sample.id [.sample]).resolve PolicyRef.sample.rule
      (.ofCatalogs [.sample]) = .mapped .sample := by
  decide +kernel

end Compliance
