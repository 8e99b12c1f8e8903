import Compliance.Batch

/-!
# The service

What the service answers from: its resolvers, the plan stores behind them, the catalogs in scope and
the longest batch it takes.
-/

namespace Compliance

/-- The state of the service. -/
structure Service where
  resolvers : ResolverSet
  stores : Stores
  scope : Scope
  maxBatchSize : Nat

namespace Service

/-- The longest batch unless another length is configured. -/
def defaultMaxBatchSize : Nat := 100

/-- The service that resolves all rules from one plan store. -/
def basic (scope : Scope) (plans : PlanStore) : Service where
  resolvers := { fallback := .basic Stores.shared }
  stores := Table.empty.insert Stores.shared plans
  scope := scope
  maxBatchSize := defaultMaxBatchSize

/-- The shared plan store. -/
def plans (s : Service) : PlanStore := s.stores.store Stores.shared

/-- The service after plans have been registered in the shared store. -/
def registerPlan (s : Service) (catalog : CatalogId) (plans : List AssessmentPlan) : Service :=
  { s with stores := s.stores.register Stores.shared catalog plans }

/-- The service after a catalog has been put in scope. -/
def insertCatalog (s : Service) (c : Catalog) : Service :=
  { s with scope := s.scope.withCatalog c }

/-- The service with other catalogs in scope. -/
def replaceScope (s : Service) (cs : List Catalog) : Service :=
  { s with scope := .ofCatalogs cs }

/-- What is known about a policy. -/
def resolve (s : Service) (p : PolicyRef) : Resolution :=
  (s.resolvers.select p.engine).metadata s.stores p.rule s.scope

/-- What is known about a piece of evidence. -/
def enrich (s : Service) (e : Evidence) : Enrichment :=
  (s.resolvers.select e.policy.engine).enrich s.stores e s.scope

/-- The items for some policies. -/
def resolveItems (s : Service) (ps : List PolicyRef) : List BatchItem :=
  s.resolvers.resolveItems s.stores s.scope ps

/-- The answer to a batch of an allowed length. -/
def answerBatch (s : Service) (ps : List PolicyRef) : Except InputError BatchAnswer :=
  s.resolvers.answerBatch s.stores s.scope s.maxBatchSize ps

end Service

end Compliance
