import Compliance.Catalog
import Compliance.Table
import Compliance.Text.Character

/-!
# Plans and catalogs, indexed

Resolution asks two questions: which procedure carries out a rule, and what is known about a
procedure's control. Both are answered from an index. Where an id occurs more than once the last
occurrence counts. Rules are trimmed, so procedure ids are too; control ids are taken as they stand.

Plans are registered under the catalog that they assess and never removed; each registration raises
the version of their store by one and renews the index of the one catalog it concerns. The catalogs
in force are the scope, and of two catalogs with one id the later counts.

* `ProcedureIndex.ofPlans` : the procedures of some plans.
* `ControlIndex.ofCatalog` : the controls of a catalog.
* `Scope` : the catalogs in force.
* `PlanStore` : all registered plans.
-/

namespace Compliance

open Compliance.Text (trim)

/-! ### Indexes -/

/-- A procedure's place in its plan. -/
structure ProcedureEntry where
  controlId : String
  requirementId : String
  documentation : String
  deriving DecidableEq, Repr

/-- The procedures of some plans, by trimmed id. -/
abbrev ProcedureIndex := Table String ProcedureEntry

/-- The procedures of a plan in the order of the document, each under its trimmed id. -/
def AssessmentPlan.procedures (p : AssessmentPlan) : List (String × ProcedureEntry) :=
  p.requirements.flatMap fun r =>
    r.procedures.map fun q => (trim q.id, ⟨p.controlId, r.id, q.documentation⟩)

/-- The index of the procedures of some plans. -/
def ProcedureIndex.ofPlans (plans : List AssessmentPlan) : ProcedureIndex :=
  Table.ofList (plans.flatMap AssessmentPlan.procedures)

/-- A control's family and standards. -/
structure ControlEntry where
  category : String
  standards : List StandardMapping
  deriving DecidableEq, Repr

namespace ControlEntry

/-- The requirements of all standards, in the order of the document and with repetitions. -/
def requirements (e : ControlEntry) : List String :=
  e.standards.flatMap StandardMapping.requirements

/-- The standards, in the order of the document and with repetitions. -/
def frameworks (e : ControlEntry) : List String :=
  e.standards.map StandardMapping.standard

end ControlEntry

/-- The controls of a catalog, by id. -/
abbrev ControlIndex := Table String ControlEntry

/-- The index of the controls of a catalog. -/
def ControlIndex.ofCatalog (c : Catalog) : ControlIndex :=
  Table.ofList (c.titledControls.map fun (title, k) => (k.id, ⟨title, k.standards⟩))

/-! ### The scope -/

/-- A catalog in force and the index of its controls. -/
structure ScopedCatalog where
  catalog : Catalog
  controls : ControlIndex
  deriving DecidableEq

/-- A catalog with its index. -/
def ScopedCatalog.ofCatalog (c : Catalog) : ScopedCatalog :=
  ⟨c, ControlIndex.ofCatalog c⟩

/-- The catalogs in force. -/
abbrev Scope := Table CatalogId ScopedCatalog

namespace Scope

/-- A scope with one catalog added, in place of an older one with its id. -/
def withCatalog (s : Scope) (c : Catalog) : Scope :=
  s.insert c.id (.ofCatalog c)

/-- The scope of some catalogs. -/
def ofCatalogs (cs : List Catalog) : Scope :=
  cs.foldl withCatalog {}

/-- Puts another scope in force and hands back the one that was, in this order. -/
def replace (s next : Scope) : Scope × Scope := (next, s)

end Scope

/-! ### The store of plans -/

/-- The plans registered under one catalog and the index of their procedures. -/
structure CatalogPlans where
  plans : List AssessmentPlan := []
  procedures : ProcedureIndex := {}
  deriving DecidableEq

namespace CatalogPlans

/-- The plans with more of them after those that are there. -/
def append (c : CatalogPlans) (plans : List AssessmentPlan) : CatalogPlans :=
  let all := c.plans ++ plans
  ⟨all, ProcedureIndex.ofPlans all⟩

end CatalogPlans

/-- All registered plans, by catalog. -/
structure PlanStore where
  version : Nat := 0
  catalogs : Table CatalogId CatalogPlans := {}
  deriving DecidableEq

namespace PlanStore

/-- The store after some plans have been registered under a catalog. -/
def register (s : PlanStore) (catalog : CatalogId) (plans : List AssessmentPlan) : PlanStore :=
  let existing := (s.catalogs.get? catalog).getD {}
  ⟨s.version + 1, s.catalogs.insert catalog (existing.append plans)⟩

end PlanStore

end Compliance
