import Compliance.Proofs.Identifier
import Compliance.Proofs.Mapping.Reach

/-!
# Blanks around procedure ids

Plans are kept as they are given, with whatever blanks there are around their procedures' ids; the
index is made without them.  So nothing that is looked up depends on the blanks.  A plan without
them is the plan's tidy form, and plans have the same tidy form if they differ in these blanks
alone.

* `AssessmentPlan.tidied`, `Stores.tidied` : plans and stores with the blanks taken away.
* `ProcedureIndex.get?_ofPlans_of_ofText` : which procedure is found for the text of a rule.
* `PlanStore.resolve_tidied`, `PlanStore.register_tidied` : the blanks make no difference to what is
  found, and registering goes on in tidy stores.
* `Resolver.IgnoresPadding` : a resolver to which the blanks make no difference.
* `Resolver.ignoresPadding_basic` : the basic resolvers are such.
-/

namespace Compliance

open Compliance.Text (trim)

/-! ### Plans -/

/-- A procedure without the blanks around its id. -/
def Procedure.tidied (q : Procedure) : Procedure := { q with id := trim q.id }

/-- A requirement without the blanks around its procedures' ids. -/
def Requirement.tidied (r : Requirement) : Requirement :=
  { r with procedures := r.procedures.map .tidied }

/-- A plan without the blanks around its procedures' ids. -/
def AssessmentPlan.tidied (p : AssessmentPlan) : AssessmentPlan :=
  { p with requirements := p.requirements.map .tidied }

namespace ProcedureIndex

@[simp] theorem ofPlans_tidied (plans : List AssessmentPlan) :
    ofPlans (plans.map .tidied) = ofPlans plans := by
  have hprocedures : ∀ p : AssessmentPlan, p.tidied.procedures = p.procedures := by
    intro p
    simp [AssessmentPlan.procedures, AssessmentPlan.tidied, Requirement.tidied, Procedure.tidied,
      List.flatMap_map, Function.comp_def]
  simp only [ofPlans, List.flatMap_map, hprocedures]

variable {s : String} {rule : RuleId}

/-- **A rule finds the last procedure whose id is the rule's text, blanks around either aside.** -/
theorem get?_ofPlans_of_ofText (h : Identifier.ofText .rule s = .ok rule)
    (plans : List AssessmentPlan) (e : ProcedureEntry) :
    (ofPlans plans).get? rule.text = some e ↔
      ∃ site, IsLast (fun site => trim site.procedure.id = trim s) (procedureSites plans) site ∧
        site.entry.2 = e := by
  rw [get?_ofPlans_eq_some_iff, Identifier.text_of_ofText h]

theorem get?_ofPlans_singleton (h : Identifier.ofText .rule s = .ok rule) (control : String)
    (requirement : String) (q : Procedure) :
    (ofPlans [⟨control, [⟨requirement, [q]⟩]⟩]).get? rule.text =
      if trim q.id = trim s then some ⟨control, requirement, q.documentation⟩ else none := by
  have hlone : ofPlans [⟨control, [⟨requirement, [q]⟩]⟩] =
      Table.empty.insert (trim q.id) ⟨control, requirement, q.documentation⟩ := rfl
  rw [hlone, Table.get?_insert, Identifier.text_of_ofText h, Table.get?_empty]
  simp only [eq_comm]

end ProcedureIndex

/-! ### Stores -/

/-- The plans under a catalog without the blanks around their procedures' ids; the index has none.
-/
def CatalogPlans.tidied (c : CatalogPlans) : CatalogPlans :=
  { c with plans := c.plans.map .tidied }

theorem CatalogPlans.append_tidied (c : CatalogPlans) (plans : List AssessmentPlan) :
    c.tidied.append (plans.map .tidied) = (c.append plans).tidied := by
  simp only [append, tidied, ← List.map_append, ProcedureIndex.ofPlans_tidied]

namespace PlanStore

/-- A store with tidy plans. -/
def tidied (s : PlanStore) : PlanStore :=
  { s with catalogs := s.catalogs.mapValues .tidied }

/-- **The blanks around procedure ids do not matter to what is found.** -/
theorem resolve_tidied (s : PlanStore) (rule : RuleId) (scope : Scope) :
    s.tidied.resolve rule scope = s.resolve rule scope := by
  refine resolve_congr ?_
  intro c
  rw [answer?, answer?, tidied, Table.get?_mapValues, Option.bind_map]
  rfl

/-- **Registering tidy plans in a tidy store gives a tidy store.** -/
theorem register_tidied (s : PlanStore) (c : CatalogId) (plans : List AssessmentPlan) :
    s.tidied.register c (plans.map .tidied) = (s.register c plans).tidied := by
  have hexisting : (s.tidied.catalogs.get? c).getD {} = ((s.catalogs.get? c).getD {}).tidied := by
    rw [tidied, Table.get?_mapValues]
    cases s.catalogs.get? c <;> rfl
  simp only [register, hexisting, CatalogPlans.append_tidied]
  simp only [tidied, Table.mapValues_insert]

end PlanStore

namespace Stores

/-- Stores with tidy plans. -/
def tidied (s : Stores) : Stores := s.mapValues .tidied

theorem store_tidied (s : Stores) (n : Nat) : s.tidied.store n = (s.store n).tidied := by
  rw [store, store, tidied, Table.get?_mapValues]
  cases s.get? n <;> rfl

theorem register_tidied (s : Stores) (n : Nat) (c : CatalogId) (plans : List AssessmentPlan) :
    s.tidied.register n c (plans.map .tidied) = (s.register n c plans).tidied := by
  rw [register, store_tidied, PlanStore.register_tidied, register, tidied, tidied,
    Table.mapValues_insert]

end Stores

/-! ### Resolvers -/

/-- A resolver that takes no notice of the blanks around procedure ids: it finds the same without
them, and registers tidy plans in tidy stores as it registers the plans themselves. -/
structure Resolver.IgnoresPadding (r : Resolver) : Prop where
  metadata : ∀ (stores : Stores) (rule : RuleId) (scope : Scope),
    r.metadata stores.tidied rule scope = r.metadata stores rule scope
  registerPlan : ∀ (stores : Stores) (c : CatalogId) (plans : List AssessmentPlan),
    r.registerPlan stores.tidied c (plans.map .tidied) =
      ((r.registerPlan stores c plans).1.tidied, (r.registerPlan stores c plans).2)

/-- **The basic resolvers take no notice of the blanks.** -/
theorem Resolver.ignoresPadding_basic (n : Nat) : (Resolver.basic n).IgnoresPadding where
  metadata stores rule scope := by
    simp only [basic, Stores.store_tidied, PlanStore.resolve_tidied]
  registerPlan stores c plans := by
    simp only [basic, Stores.register_tidied, Stores.store_tidied]
    rfl

/-- All resolvers of a set take no notice of the blanks. -/
def ResolverSet.IgnorePadding (rs : ResolverSet) : Prop :=
  ∀ engine, (rs.select engine).IgnoresPadding

theorem ResolverSet.IgnorePadding.register {rs : ResolverSet} (h : rs.IgnorePadding)
    (engine : EngineName) {r : Resolver} (hr : r.IgnoresPadding) :
    (rs.register engine r).2.IgnorePadding := by
  rw [ResolverSet.register]
  split
  · exact h
  · intro other
    by_cases hother : other = engine
    · simpa [select, hother] using hr
    · have hselect : (rs.resolvers.insert engine r).get? other = rs.resolvers.get? other :=
        Table.get?_insert_of_ne _ _ hother
      simpa only [select, hselect] using h other

end Compliance
