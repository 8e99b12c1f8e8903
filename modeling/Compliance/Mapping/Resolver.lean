import Compliance.Mapping.Store
import Compliance.Metadata

/-!
# Resolvers

A resolver says what is known about a rule under a scope. The basic one joins the plans of a store
with the catalogs in scope: it goes through the catalogs that have plans, in the order of their ids,
and takes the first in which the rule has a procedure whose control the catalog knows.

* `PlanStore.resolve` : the join.
* `Stores` : the plan stores of a program, one of them shared.
* `Resolver` : a resolver over those stores.
* `ResolverSet` : each policy engine may have a resolver of its own, and all others share the
  fallback. A resolver that is registered stays: a second one for its engine is refused.
-/

namespace Compliance

namespace PlanStore

/-- The metadata of a rule in one catalog: the rule's procedure joined with the procedure's
control. -/
def match? (rule : RuleId) (scope : Scope) (catalog : CatalogId) (plans : CatalogPlans) :
    Option Metadata := do
  let found ← scope.get? catalog
  let procedure ← plans.procedures.get? rule.text
  let control ← found.controls.get? procedure.controlId
  return {
    controlId := procedure.requirementId
    category := control.category
    catalogId := catalog.text
    remediation := some procedure.documentation
    requirements := control.requirements
    frameworks := control.frameworks }

/-- What the plans of a store and the catalogs in scope say about a rule. -/
def resolve (s : PlanStore) (rule : RuleId) (scope : Scope) : Resolution :=
  match s.catalogs.entries.findSome? fun (catalog, plans) => match? rule scope catalog plans with
  | some m => .mapped m
  | none => .unmapped rule

end PlanStore

/-- The plan stores of a program, by number. Every number has a store, at first an empty one. -/
abbrev Stores := Table Nat PlanStore

namespace Stores

/-- The number of the shared store. -/
def shared : Nat := 0

/-- The store of a number. -/
def store (s : Stores) (n : Nat) : PlanStore := (s.get? n).getD {}

/-- The stores after some plans have been registered in one of them. -/
def register (s : Stores) (n : Nat) (catalog : CatalogId) (plans : List AssessmentPlan) : Stores :=
  s.insert n ((s.store n).register catalog plans)

/-- The stores with an empty one added, and its number. -/
def add (s : Stores) : Stores × Nat :=
  let n := s.keys.getLast?.getD shared + 1
  (s.insert n {}, n)

end Stores

/-- A way to resolve rules. -/
structure Resolver where
  id : String
  /-- What is known about a rule under a scope. -/
  metadata : Stores → RuleId → Scope → Resolution
  /-- Registers plans; the number is the version that results. -/
  registerPlan : Stores → CatalogId → List AssessmentPlan → Stores × Nat
  /-- The verdict on a piece of evidence, by its outcome unless a resolver sees more in it. -/
  verdict : Evidence → Verdict := Evidence.verdict

namespace Resolver

/-- The resolver that joins the plans of one store with the catalogs in scope. -/
def basic (n : Nat) : Resolver where
  id := "basic"
  metadata s rule scope := (s.store n).resolve rule scope
  registerPlan s catalog plans :=
    let s' := s.register n catalog plans
    (s', (s'.store n).version)

/-- Metadata and verdict of a piece of evidence. -/
def enrich (r : Resolver) (s : Stores) (e : Evidence) (scope : Scope) : Enrichment :=
  (r.metadata s e.policy.rule scope).enrich (r.verdict e)

end Resolver

/-! ### Resolvers by engine -/

/-- Why a resolver cannot be registered. -/
inductive RegistryError where
  /-- The engine has a resolver already. -/
  | duplicateEngine (engine : EngineName)
  deriving DecidableEq

/-- The text that a user is shown. -/
def RegistryError.message : RegistryError → String
  | .duplicateEngine engine => "a resolver is already registered for engine " ++ engine.text

/-- The resolvers of some engines and the one of all others. -/
structure ResolverSet where
  resolvers : Table EngineName Resolver := {}
  fallback : Resolver

namespace ResolverSet

/-- What the registration of a resolver gives, and the set after it. -/
def register (rs : ResolverSet) (engine : EngineName) (r : Resolver) :
    Except RegistryError Unit × ResolverSet :=
  if rs.resolvers.contains engine then (.error (.duplicateEngine engine), rs)
  else (.ok (), { rs with resolvers := rs.resolvers.insert engine r })

/-- The resolver of an engine. -/
def select (rs : ResolverSet) (engine : EngineName) : Resolver :=
  (rs.resolvers.get? engine).getD rs.fallback

/-- The engines that have a resolver of their own. -/
def engines (rs : ResolverSet) : List EngineName := rs.resolvers.keys

/-- How many engines have a resolver of their own. -/
def size (rs : ResolverSet) : Nat := rs.resolvers.size

end ResolverSet

end Compliance
