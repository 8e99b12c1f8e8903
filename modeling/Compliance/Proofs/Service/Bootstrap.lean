import Compliance.Proofs.File.Loading
import Compliance.Proofs.Mapping.Calls
import Compliance.Service.Config

/-!
# Starting the service

A service starts from the catalogs and plans that its configuration names, and only if all of them
can be loaded.  Then every catalog is in scope, and under each id there are the plans of all files
that are listed for it, one file after the other, be a catalog with the id in scope or not.  If
something cannot be loaded, the first file to blame is reported, where catalogs come before plans.
How a single file is read and parsed is taken as given.

* `ServiceConfig.Loadable` : all that a configuration names can be loaded.
* `ServiceConfig.Loads`, `ServiceConfig.Started` : what is loaded, and the service that starts with
  it.
* `ServiceConfig.FirstFault` : the first file to blame, and what is wrong with it.
* `ServiceConfig.bootstrap_account` : when a service starts, which one, and what is reported if none
  does.
-/

namespace Compliance

open Codec (bind_eq_ok_iff bind_eq_error_iff)

/-! ### Plans -/

section

variable {files : Files} {sources : List PlanSource} {store store' : PlanStore} {e : LoadError}

/-- The files of some plans hold what is to be registered, each under its catalog. -/
def Files.HoldPlans (files : Files) : List PlanSource → List Registration → Prop :=
  List.Forall₂ fun s r =>
    s.catalog = r.catalog ∧ files.Holds (.list AssessmentPlan.codec) s.path r.plans

theorem Files.exists_holdPlans_iff :
    (∃ h, files.HoldPlans sources h) ↔
      ∀ s ∈ sources, ∃ plans, files.Holds (.list AssessmentPlan.codec) s.path plans := by
  rw [HoldPlans, exists_forall₂_iff]
  refine forall₂_congr fun s _ => ?_
  constructor
  · rintro ⟨r, -, hr⟩
    exact ⟨r.plans, hr⟩
  · rintro ⟨plans, h⟩
    exact ⟨⟨s.catalog, plans⟩, rfl, h⟩

namespace ServiceConfig

theorem loadPlanSources_eq_ok_iff :
    loadPlanSources files store sources = .ok store' ↔
      ∃ h, files.HoldPlans sources h ∧
        h.foldl (fun s r => s.register r.catalog r.plans) store = store' := by
  induction sources generalizing store with
  | nil =>
    constructor
    · rintro ⟨⟩
      exact ⟨[], .nil, rfl⟩
    · rintro ⟨_, ⟨⟩, rfl⟩
      rfl
  | cons s sources ih =>
    simp only [loadPlanSources, loadPlans, bind_eq_ok_iff, Files.mapError_document_eq_ok_iff, ih]
    constructor
    · rintro ⟨plans, hplans, h, hh, rfl⟩
      exact ⟨⟨s.catalog, plans⟩ :: h, .cons ⟨rfl, hplans⟩ hh, rfl⟩
    · rintro ⟨_, hh, rfl⟩
      cases hh with
      | @cons _ r _ h hr hh =>
        obtain ⟨hcatalog, hplans⟩ := hr
        refine ⟨r.plans, hplans, h, hh, ?_⟩
        rw [hcatalog]
        rfl

theorem loadPlanSources_eq_error_iff :
    loadPlanSources files store sources = .error e ↔
      ∃ before s after h d, sources = before ++ s :: after ∧ files.HoldPlans before h ∧
        files.Fails (.list AssessmentPlan.codec) s.path d ∧ .document d = e := by
  induction sources generalizing store with
  | nil =>
    refine iff_of_false (fun h => by cases h) ?_
    rintro ⟨before, s, after, h, d, heq, -⟩
    simp at heq
  | cons s sources ih =>
    simp only [loadPlanSources, loadPlans, bind_eq_error_iff, Files.mapError_document_eq_ok_iff,
      Files.mapError_document_eq_error_iff, ih]
    constructor
    · rintro (⟨d, hd, rfl⟩ | ⟨plans, hplans, before, s', after, h, d, rfl, hh, hd, rfl⟩)
      · exact ⟨[], s, sources, [], d, rfl, .nil, hd, rfl⟩
      · exact ⟨s :: before, s', after, ⟨s.catalog, plans⟩ :: h, d, rfl,
          .cons ⟨rfl, hplans⟩ hh, hd, rfl⟩
    · rintro ⟨before, s', after, h, d, heq, hh, hd, rfl⟩
      cases hh with
      | nil =>
        obtain ⟨rfl, rfl⟩ := List.cons.inj heq
        exact .inl ⟨d, hd, rfl⟩
      | cons hr hh =>
        obtain ⟨rfl, rfl⟩ := List.cons.inj heq
        exact .inr ⟨_, hr.2, _, s', after, _, d, rfl, hh, hd, rfl⟩

end ServiceConfig

end

/-! ### The service -/

namespace ServiceConfig

/-- All that a configuration names can be loaded. -/
structure Loadable (c : ServiceConfig) (files : Files) : Prop where
  catalogs : ∀ path ∈ c.catalogs, ∃ k, files.Holds Catalog.codec path k
  plans : ∀ s ∈ c.plans, ∃ plans, files.Holds (.list AssessmentPlan.codec) s.path plans
  distinct : files.DistinctIds c.catalogs

/-- The catalogs and the plans that are loaded for a configuration. -/
structure Loads (c : ServiceConfig) (files : Files) (cs : List Catalog) (h : List Registration) :
    Prop where
  catalogs : files.HoldCatalogs c.catalogs cs
  plans : files.HoldPlans c.plans h

/-- The service that starts with some catalogs and plans. -/
structure Started (c : ServiceConfig) (cs : List Catalog) (h : List Registration) (s : Service) :
    Prop where
  /-- Every catalog is in scope under its id, with its index, and there are no others. -/
  scope : ∀ id found, s.scope.get? id = some found ↔
    ∃ k ∈ cs, k.id = id ∧ ScopedCatalog.ofCatalog k = found
  /-- None has been put in the place of another. -/
  size : s.scope.size = c.catalogs.length
  version : s.plans.version = c.plans.length
  /-- Under an id there are the plans that are listed for it, in order, and the index of all of
  them. -/
  plans : ∀ id, s.plans.catalogs.get? id =
    (gathered id h).map fun plans => ⟨plans, ProcedureIndex.ofPlans plans⟩
  maxBatchSize : s.maxBatchSize = c.maxBatchSize
  /-- All rules are resolved from these plans. -/
  resolvers : s.resolvers = { fallback := .basic Stores.shared }
  stores : s.stores = Table.empty.insert Stores.shared s.plans

/-- The first file that keeps a service from starting, and what is wrong with it. -/
inductive FirstFault (c : ServiceConfig) (files : Files) : LoadError → Prop
  /-- A catalog file fails or repeats an id, and all before it hold catalogs with different ids. -/
  | catalog {before after : List String} {path : String} {cs : List Catalog} {e : LoadError}
      (position : c.catalogs = before ++ path :: after) (earlier : files.HoldCatalogs before cs)
      (fault : files.CatalogFault (cs.map Catalog.id) path e) : FirstFault c files e
  /-- All catalogs can be loaded, but a plan file fails, and all before it hold plans. -/
  | plans {cs : List Catalog} {before after : List PlanSource} {source : PlanSource}
      {h : List Registration} {d : DocumentError} (catalogs : files.HoldCatalogs c.catalogs cs)
      (position : c.plans = before ++ source :: after) (earlier : files.HoldPlans before h)
      (fails : files.Fails (.list AssessmentPlan.codec) source.path d) :
      FirstFault c files (.document d)

variable {c : ServiceConfig} {files : Files} {cs : List Catalog} {h : List Registration}
  {s : Service} {e : LoadError}

theorem loadable_iff : c.Loadable files ↔ ∃ cs h, c.Loads files cs h := by
  constructor
  · rintro ⟨hcatalogs, hplans, hdistinct⟩
    obtain ⟨cs, hcs⟩ := Files.exists_holdCatalogs_iff.mpr ⟨hcatalogs, hdistinct⟩
    obtain ⟨h, hh⟩ := Files.exists_holdPlans_iff.mpr hplans
    exact ⟨cs, h, hcs, hh⟩
  · rintro ⟨cs, h, hcs, hh⟩
    obtain ⟨hcatalogs, hdistinct⟩ := Files.exists_holdCatalogs_iff.mp ⟨cs, hcs⟩
    exact ⟨hcatalogs, Files.exists_holdPlans_iff.mp ⟨h, hh⟩, hdistinct⟩

/-- The service that a configuration describes, with some catalogs and plans. -/
def service (c : ServiceConfig) (cs : List Catalog) (h : List Registration) : Service :=
  { Service.basic (.ofCatalogs cs) (.ofHistory h) with maxBatchSize := c.maxBatchSize }

theorem bootstrap_eq_ok_iff :
    c.bootstrap files = .ok s ↔ ∃ cs h, c.Loads files cs h ∧ c.service cs h = s := by
  simp only [bootstrap, bind_eq_ok_iff, loadCatalogs_eq_ok_iff, loadPlanSources_eq_ok_iff]
  constructor
  · rintro ⟨cs, hcs, _, ⟨h, hh, rfl⟩, hs⟩
    exact ⟨cs, h, ⟨hcs, hh⟩, Except.ok.inj hs⟩
  · rintro ⟨cs, h, ⟨hcs, hh⟩, rfl⟩
    exact ⟨cs, hcs, _, ⟨h, hh, rfl⟩, rfl⟩

theorem bootstrap_eq_error_iff : c.bootstrap files = .error e ↔ c.FirstFault files e := by
  simp only [bootstrap, bind_eq_error_iff, loadCatalogs_eq_ok_iff, loadCatalogs_eq_error_iff,
    loadPlanSources_eq_error_iff]
  constructor
  · rintro (⟨before, path, after, cs, position, earlier, fault⟩ | ⟨cs, hcs, hplans⟩)
    · exact .catalog position earlier fault
    · rcases hplans with ⟨before, source, after, h, d, position, earlier, hd, rfl⟩ | ⟨_, -, h⟩
      · exact .plans hcs position earlier hd
      · cases h
  · rintro (⟨position, earlier, fault⟩ | ⟨hcs, position, earlier, hd⟩)
    · exact .inl ⟨_, _, _, _, position, earlier, fault⟩
    · exact .inr ⟨_, hcs, .inl ⟨_, _, _, _, _, position, earlier, hd, rfl⟩⟩

theorem plans_service : (c.service cs h).plans = .ofHistory h := by
  simp [service, Service.plans, Service.basic, Stores.store]

/-- The catalogs and plans that are loaded are those that the service starts with. -/
theorem started_service (hload : c.Loads files cs h) : c.Started cs h (c.service cs h) := by
  obtain ⟨⟨heach, hdistinct⟩, hh⟩ := hload
  refine
    { scope := fun id found => ?_
      size := ?_
      version := ?_
      plans := fun id => ?_
      maxBatchSize := rfl
      resolvers := rfl
      stores := ?_ }
  · change (Scope.ofCatalogs cs).get? id = some found ↔ _
    rw [Scope.ofCatalogs_eq_ofList, Table.get?_ofList_map_eq_some_iff]
    simp only [isLast_iff_of_nodup hdistinct, and_assoc]
  · change (Scope.ofCatalogs cs).size = _
    rw [Scope.ofCatalogs_eq_ofList, Table.size_ofList_map, List.toFinset_card_of_nodup hdistinct,
      List.length_map, heach.length_eq]
  · rw [plans_service, PlanStore.version_ofHistory, hh.length_eq]
  · rw [plans_service, PlanStore.get?_ofHistory_eq_gathered]
  · rw [plans_service]
    rfl

theorem Started.unique {s' : Service} (hs : c.Started cs h s) (hs' : c.Started cs h s') :
    s = s' := by
  have hscope : s.scope = s'.scope := by
    refine Table.eq_of_get? fun id => Option.ext fun found => ?_
    rw [hs.scope, hs'.scope]
  have hcatalogs : s.plans.catalogs = s'.plans.catalogs :=
    Table.eq_of_get? fun id => (hs.plans id).trans (hs'.plans id).symm
  have hversion : s.plans.version = s'.plans.version := hs.version.trans hs'.version.symm
  have hplans : s.plans = s'.plans := by
    rw [show s.plans = ⟨s.plans.version, s.plans.catalogs⟩ from rfl, hversion, hcatalogs]
  have hstores : s.stores = s'.stores := by rw [hs.stores, hs'.stores, hplans]
  have hresolvers : s.resolvers = s'.resolvers := hs.resolvers.trans hs'.resolvers.symm
  have hsize : s.maxBatchSize = s'.maxBatchSize := hs.maxBatchSize.trans hs'.maxBatchSize.symm
  rw [show s = ⟨s.resolvers, s.stores, s.scope, s.maxBatchSize⟩ from rfl, hresolvers, hstores,
    hscope, hsize]

/-- **A service starts with all that its configuration names, or the first file to blame is
reported**, however single files are read and parsed.  It starts exactly if every file holds what it
should and no two catalogs have one id; and where the parser finds ids as texts, these are different
if the texts differ once trimmed.  The service then has every catalog in scope, one for each file;
under each id there are the plans of the files that are listed for it, in order, and the version
counts these files; and the longest batch is as configured.  Otherwise the catalog files are blamed
first, then the plan files, and a repeated id is blamed on the file that repeats it. -/
theorem bootstrap_account (c : ServiceConfig) (files : Files) :
    ((∃ s, c.bootstrap files = .ok s) ↔ c.Loadable files) ∧
    (files.ReadsIds → ((∃ s, c.bootstrap files = .ok s) ↔
      (∀ path ∈ c.catalogs, ∃ k, files.Holds Catalog.codec path k) ∧
      (∀ s ∈ c.plans, ∃ plans, files.Holds (.list AssessmentPlan.codec) s.path plans) ∧
      files.DistinctTexts c.catalogs)) ∧
    (∀ s, c.bootstrap files = .ok s ↔ ∃ cs h, c.Loads files cs h ∧ c.Started cs h s) ∧
    ∀ e, c.bootstrap files = .error e ↔ c.FirstFault files e := by
  have hstarts : (∃ s, c.bootstrap files = .ok s) ↔ c.Loadable files := by
    simp only [bootstrap_eq_ok_iff, loadable_iff]
    constructor
    · rintro ⟨s, cs, h, hload, -⟩
      exact ⟨cs, h, hload⟩
    · rintro ⟨cs, h, hload⟩
      exact ⟨_, cs, h, hload, rfl⟩
  refine ⟨hstarts, fun hids => ?_, fun s => ?_, fun e => bootstrap_eq_error_iff⟩
  · rw [hstarts]
    constructor
    · rintro ⟨hcatalogs, hplans, hdistinct⟩
      exact ⟨hcatalogs, hplans, (Files.distinctIds_iff hids hcatalogs).mp hdistinct⟩
    · rintro ⟨hcatalogs, hplans, hdistinct⟩
      exact ⟨hcatalogs, hplans, (Files.distinctIds_iff hids hcatalogs).mpr hdistinct⟩
  · rw [bootstrap_eq_ok_iff]
    refine exists_congr fun cs => exists_congr fun h => and_congr_right fun hload => ?_
    constructor
    · rintro rfl
      exact started_service hload
    · intro hs
      exact (started_service hload).unique hs

/-- Files of two catalogs, of which the first has blanks around its id, and of some plans. -/
def sampleFiles : Files where
  text path :=
    [("a.yaml", "catalogId: ' cat-A '"), ("b.yaml", "catalogId: cat-B"),
      ("again.yaml", "catalogId: cat-A"), ("ac.yaml", "- controlId: AC"),
      ("au.yaml", "- controlId: AU")].lookup path

/-- Plans are kept even for a catalog that is not in scope.  A repeated id is reported though there
are missing files after it. -/
theorem bootstrap_account_sample :
    let a : CatalogId := ⟨"cat-A", by decide, by decide⟩
    let x : CatalogId := ⟨"cat-X", by decide, by decide⟩
    let c : ServiceConfig :=
      { catalogs := ["a.yaml", "b.yaml"], maxBatchSize := 7
        plans := [⟨a, "ac.yaml"⟩, ⟨x, "au.yaml"⟩, ⟨a, "au.yaml"⟩] }
    let c' : ServiceConfig :=
      { catalogs := ["a.yaml", "again.yaml", "missing.yaml"], plans := [⟨a, "missing.yaml"⟩] }
    c.Loadable sampleFiles ∧ sampleFiles.ReadsIds ∧ sampleFiles.DistinctTexts c.catalogs ∧
      (∃ s, c.bootstrap sampleFiles = .ok s ∧ s.scope.size = 2 ∧ s.plans.version = 3 ∧
        s.maxBatchSize = 7 ∧ [a, x].map (fun id => (s.plans.catalogs.get? id).map (·.plans)) =
          [some [⟨"AC", []⟩, ⟨"AU", []⟩], some [⟨"AU", []⟩]]) ∧
      c'.FirstFault sampleFiles (.duplicateCatalog a "again.yaml") := by
  intro a x c c'
  have hplans : (c.bootstrap sampleFiles).map (fun s =>
      [a, x].map fun id => (s.plans.catalogs.get? id).map (·.plans)) =
        .ok [some [⟨"AC", []⟩, ⟨"AU", []⟩], some [⟨"AU", []⟩]] := by decide +kernel
  have hfault : (c'.bootstrap sampleFiles).map (fun _ => ()) =
      .error (.duplicateCatalog a "again.yaml") := by decide +kernel
  obtain ⟨s, hs, hkept⟩ : ∃ s, c.bootstrap sampleFiles = .ok s ∧
      [a, x].map (fun id => (s.plans.catalogs.get? id).map (·.plans)) =
        [some [⟨"AC", []⟩, ⟨"AU", []⟩], some [⟨"AU", []⟩]] := by
    cases hs : c.bootstrap sampleFiles with
    | error e => rw [hs] at hplans; cases hplans
    | ok s => rw [hs] at hplans; exact ⟨s, rfl, Except.ok.inj hplans⟩
  have he : c'.bootstrap sampleFiles = .error (.duplicateCatalog a "again.yaml") := by
    cases he : c'.bootstrap sampleFiles with
    | ok s => rw [he] at hfault; cases hfault
    | error e => rw [he] at hfault; exact congrArg _ (Except.error.inj hfault)
  have hids : sampleFiles.ReadsIds := Files.readsIds_yaml _
  obtain ⟨hloadable, hwritten, hstarted, -⟩ := bootstrap_account c sampleFiles
  obtain ⟨cs, h, -, hstarted⟩ := (hstarted s).mp hs
  exact ⟨hloadable.mp ⟨s, hs⟩, hids, ((hwritten hids).mp ⟨s, hs⟩).2.2,
    ⟨s, hs, hstarted.size, hstarted.version, hstarted.maxBatchSize, hkept⟩,
    ((bootstrap_account c' sampleFiles).2.2.2 _).mp he⟩

end ServiceConfig

end Compliance
