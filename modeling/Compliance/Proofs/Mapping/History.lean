import Compliance.Mapping.Store
import Compliance.Proofs.Mapping.Index

/-!
# Histories of stores and scopes

A plan store is the outcome of a history of registrations, and a scope that of a history of
changes.  What they hold is a function of the documents in those histories.

* `PlanStore.ofHistory`, `Scope.ofHistory` : the outcomes of the two kinds of history.
* `PlanStore.get?_ofHistory` : under a catalog the store holds the plans registered under it, in
  order, and the index of all of them.
* `Scope.get?_ofHistory_eq_some_iff` : under an id the scope holds the last catalog with the id
  since the scope was last replaced.
-/

namespace Compliance

/-! ### Plans -/

/-- Plans that are registered under a catalog. -/
structure Registration where
  catalog : CatalogId
  plans : List AssessmentPlan

/-- The store after some registrations. -/
def PlanStore.ofHistory (h : List Registration) : PlanStore :=
  h.foldl (fun s r => s.register r.catalog r.plans) {}

/-- The plans registered under a catalog, in order. -/
def plansUnder (c : CatalogId) (h : List Registration) : List AssessmentPlan :=
  h.flatMap fun r => if r.catalog = c then r.plans else []

theorem plansUnder_concat (c : CatalogId) (h : List Registration) (r : Registration) :
    plansUnder c (h ++ [r]) = plansUnder c h ++ if r.catalog = c then r.plans else [] := by
  simp [plansUnder]

theorem plansUnder_eq_nil {c : CatalogId} {h : List Registration}
    (hc : c ∉ h.map Registration.catalog) : plansUnder c h = [] := by
  rw [plansUnder, List.flatMap_eq_nil_iff]
  intro r hr
  have : r.catalog ≠ c := fun he => hc (he ▸ List.mem_map_of_mem hr)
  simp [this]

namespace PlanStore

theorem ofHistory_concat (h : List Registration) (r : Registration) :
    ofHistory (h ++ [r]) = (ofHistory h).register r.catalog r.plans := by
  simp [ofHistory]

/-- Under a catalog the store holds all plans registered under it, and their index. -/
theorem get?_ofHistory (h : List Registration) (c : CatalogId) :
    (ofHistory h).catalogs.get? c =
      if c ∈ h.map Registration.catalog then
        some ⟨plansUnder c h, ProcedureIndex.ofPlans (plansUnder c h)⟩
      else none := by
  induction h using List.reverseRecOn with
  | nil => simp [ofHistory]
  | append_singleton h r ih =>
    rw [ofHistory_concat, register, plansUnder_concat]
    by_cases hc : r.catalog = c
    · subst hc
      -- a catalog without an entry is one without plans
      have hplans : (((ofHistory h).catalogs.get? r.catalog).getD {}).plans =
          plansUnder r.catalog h := by
        rw [ih]
        split
        · rfl
        · rename_i hn
          exact (plansUnder_eq_nil hn).symm
      simp [CatalogPlans.append, hplans]
    · rw [Table.get?_insert_of_ne _ _ (Ne.symm hc), ih]
      simp [hc, Ne.symm hc]

end PlanStore

/-! ### Catalogs -/

/-- A change of the scope. -/
inductive ScopeChange where
  /-- Other catalogs are put in place of those in scope. -/
  | replace (catalogs : List Catalog)
  /-- One catalog is added, in place of an older one with its id. -/
  | insert (catalog : Catalog)

namespace Scope

/-- The scope after a change. -/
def change (s : Scope) : ScopeChange → Scope
  | .replace cs => ofCatalogs cs
  | .insert c => s.withCatalog c

/-- The scope after some changes of the empty one. -/
def ofHistory (h : List ScopeChange) : Scope :=
  h.foldl change {}

/-- The given catalogs after a change: a replacement drops those before it. -/
def given (cs : List Catalog) : ScopeChange → List Catalog
  | .replace cs' => cs'
  | .insert c => cs ++ [c]

/-- The catalogs that have been given since the scope was last replaced, in order. -/
def documents (h : List ScopeChange) : List Catalog :=
  h.foldl given []

theorem change_ofCatalogs (cs : List Catalog) (e : ScopeChange) :
    (ofCatalogs cs).change e = ofCatalogs (given cs e) := by
  cases e with
  | replace cs' => rfl
  | insert c => simp [change, given, ofCatalogs]

theorem ofHistory_eq_ofCatalogs (h : List ScopeChange) :
    ofHistory h = ofCatalogs (documents h) := by
  induction h using List.reverseRecOn with
  | nil => rfl
  | append_singleton h e ih =>
    have hs : ofHistory (h ++ [e]) = (ofHistory h).change e := by simp [ofHistory]
    have hd : documents (h ++ [e]) = given (documents h) e := by simp [documents]
    rw [hs, hd, ih, change_ofCatalogs]

theorem ofCatalogs_eq_ofList (cs : List Catalog) :
    ofCatalogs cs = Table.ofList (cs.map fun c => (c.id, ScopedCatalog.ofCatalog c)) := by
  rw [Table.ofList, List.foldl_map]
  rfl

/-- Under an id a scope holds the last of its catalogs that has the id. -/
theorem get?_ofHistory_eq_some_iff {h : List ScopeChange} {id : CatalogId}
    {found : ScopedCatalog} :
    (ofHistory h).get? id = some found ↔
      ∃ c, IsLast (fun c => c.id = id) (documents h) c ∧ ScopedCatalog.ofCatalog c = found := by
  rw [ofHistory_eq_ofCatalogs, ofCatalogs_eq_ofList]
  exact Table.get?_ofList_map_eq_some_iff

end Scope

end Compliance
