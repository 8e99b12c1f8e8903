import Compliance.Proofs.Mapping.History
import Compliance.Proofs.Table
import Compliance.Proofs.Text.ByteOrder

/-!
# Stores and scopes, call by call

A plan store is filled by one registration after the other, and each gives a version.  A scope is
changed by replacements, which hand back what they replace, and by insertions.  What either holds in
the end can be read off the calls, and for a plan store it does not matter how the registrations for
different catalogs are mixed.

* `PlanStore.calls`, `Scope.calls` : what the calls of a run give, and what they leave.
* `gathered` : what a run registers under a catalog, if it registers anything there.
* `PlanStore.Account`, `Scope.Account` : what the calls give and leave, read off the run.
* `accounts_of_calls` : every run goes by these accounts, and what that means for the order of
  registrations.
-/

namespace Compliance

/-! ### Registrations -/

/-- The plans that a run registers under a catalog, in order, unless there are no registrations
under it. -/
def gathered (c : CatalogId) (h : List Registration) : Option (List AssessmentPlan) :=
  if c ∈ h.map Registration.catalog then some (plansUnder c h) else none

theorem gathered_filter (c : CatalogId) (h : List Registration) :
    gathered c (h.filter (·.catalog = c)) = gathered c h := by
  have hmem : c ∈ (h.filter (·.catalog = c)).map Registration.catalog ↔
      c ∈ h.map Registration.catalog := by
    simp
  have hplans : plansUnder c (h.filter (·.catalog = c)) = plansUnder c h := by
    induction h with
    | nil => rfl
    | cons r h ih =>
      rw [plansUnder, plansUnder, List.filter_cons]
      by_cases hr : r.catalog = c
      · simpa [hr, plansUnder] using ih (by simp)
      · simpa [hr, plansUnder] using ih (by simp)
  rw [gathered, gathered, hplans]
  simp only [hmem]

/-- Plans may be registered in one go or in two. -/
theorem gathered_split (before after : List Registration) (c d : CatalogId)
    (ps qs : List AssessmentPlan) :
    gathered d (before ++ ⟨c, ps ++ qs⟩ :: after) =
      gathered d (before ++ ⟨c, ps⟩ :: ⟨c, qs⟩ :: after) := by
  by_cases hd : c = d <;> simp [gathered, plansUnder, hd]

namespace PlanStore

/-- What the registrations of a run give, and the store that they leave. -/
def calls (s : PlanStore) : List Registration → List Nat × PlanStore
  | [] => ([], s)
  | r :: rs =>
    let s := s.register r.catalog r.plans
    let (versions, last) := calls s rs
    (s.version :: versions, last)

theorem calls_eq (s : PlanStore) (h : List Registration) :
    s.calls h = (List.range' (s.version + 1) h.length,
      h.foldl (fun s r => s.register r.catalog r.plans) s) := by
  induction h generalizing s with
  | nil => rfl
  | cons r h ih =>
    rw [calls, ih]
    rfl

theorem version_ofHistory (h : List Registration) : (ofHistory h).version = h.length := by
  induction h using List.reverseRecOn with
  | nil => rfl
  | append_singleton h r ih =>
    rw [ofHistory_concat, register, ih, List.length_append, List.length_singleton]

theorem get?_ofHistory_eq_gathered (h : List Registration) (c : CatalogId) :
    (ofHistory h).catalogs.get? c =
      (gathered c h).map fun ps => ⟨ps, ProcedureIndex.ofPlans ps⟩ := by
  rw [get?_ofHistory, gathered]
  split <;> rfl

/-- The catalogs of a store are a function of what is gathered, and tell it. -/
theorem catalogs_ofHistory_eq_iff {h h' : List Registration} :
    (ofHistory h).catalogs = (ofHistory h').catalogs ↔ ∀ c, gathered c h = gathered c h' := by
  constructor
  · intro heq c
    have hget : ((ofHistory h).catalogs.get? c).map CatalogPlans.plans =
        ((ofHistory h').catalogs.get? c).map CatalogPlans.plans := by rw [heq]
    simpa [get?_ofHistory_eq_gathered, Function.comp_def] using hget
  · intro heq
    refine Table.eq_of_get? fun c => ?_
    rw [get?_ofHistory_eq_gathered, get?_ofHistory_eq_gathered, heq]

theorem ofHistory_eq_of_filter {h h' : List Registration}
    (hfilter : ∀ c : CatalogId, h.filter (·.catalog = c) = h'.filter (·.catalog = c)) :
    ofHistory h = ofHistory h' := by
  have hcatalogs : (ofHistory h).catalogs = (ofHistory h').catalogs := by
    refine catalogs_ofHistory_eq_iff.mpr fun c => ?_
    rw [← gathered_filter, hfilter, gathered_filter]
  -- the runs hold the same registrations, so there are equally many
  have hperm : h.Perm h' := by
    classical
    refine List.perm_iff_count.mpr fun r => ?_
    have hcount : ∀ l : List Registration,
        (l.filter (·.catalog = r.catalog)).count r = l.count r := fun l =>
      List.count_filter (by simp)
    rw [← hcount, hfilter, hcount]
  have hversion : (ofHistory h).version = (ofHistory h').version := by
    rw [version_ofHistory, version_ofHistory, hperm.length_eq]
  cases hs : ofHistory h
  cases hs' : ofHistory h'
  simp_all

/-- What becomes of a new store when plans are registered. -/
structure Account (h : List Registration) (versions : List Nat) (s : PlanStore) : Prop where
  /-- The registrations give the versions from one on. -/
  versions : versions = List.range' 1 h.length
  version : s.version = h.length
  /-- The catalogs are those of the registrations. -/
  catalogs : ∀ c, c ∈ s.catalogs.keys ↔ ∃ r ∈ h, r.catalog = c
  /-- They are in the order of the bytes of their ids, and none is there twice. -/
  ascending : s.catalogs.keys.Pairwise fun c d => Text.ByteLT c.text d.text
  /-- Under a catalog there is what is gathered, and the index of all of it. -/
  entry : ∀ c, s.catalogs.get? c = (gathered c h).map fun ps => ⟨ps, ProcedureIndex.ofPlans ps⟩

theorem account_of_calls (h : List Registration) :
    Account h (calls {} h).1 (calls {} h).2 := by
  rw [calls_eq]
  refine
    { versions := rfl
      version := version_ofHistory h
      catalogs := fun c => ?_
      ascending := ?_
      entry := get?_ofHistory_eq_gathered h }
  · -- an entry stands for a registration, even for one without plans
    change c ∈ (ofHistory h).catalogs.keys ↔ _
    rw [Table.mem_keys_iff, get?_ofHistory_eq_gathered, gathered, ← List.mem_map]
    split <;> simp [*]
  · refine (ofHistory h).catalogs.pairwise_keys.imp fun {c d} hlt => ?_
    exact (Text.compare_eq_lt_iff c.text d.text).mp hlt

end PlanStore

/-! ### Changes of the scope -/

namespace Scope

/-- What the changes of a run hand back, and the scope that they leave. -/
def calls (s : Scope) : List ScopeChange → List (Option Scope) × Scope
  | [] => ([], s)
  | .replace cs :: h =>
    let (s, previous) := s.replace (.ofCatalogs cs)
    let (handed, last) := calls s h
    (some previous :: handed, last)
  | .insert c :: h =>
    let (handed, last) := calls (s.withCatalog c) h
    (none :: handed, last)

theorem snd_calls (s : Scope) (h : List ScopeChange) : (s.calls h).2 = h.foldl change s := by
  induction h generalizing s with
  | nil => rfl
  | cons e h ih =>
    rw [List.foldl_cons, ← ih]
    cases e <;> rfl

/-- A change hands back the scope before it if it puts others in force, and else nothing. -/
def handedBack (s : Scope) : ScopeChange → Option Scope
  | .replace _ => some s
  | .insert _ => none

theorem getElem?_fst_calls (s : Scope) (before : List ScopeChange) (e : ScopeChange)
    (after : List ScopeChange) :
    (s.calls (before ++ e :: after)).1[before.length]? =
      some (handedBack (s.calls before).2 e) := by
  induction before generalizing s with
  | nil => cases e <;> rfl
  | cons d before ih => cases d <;> exact ih _

theorem length_fst_calls (s : Scope) (h : List ScopeChange) :
    (s.calls h).1.length = h.length := by
  induction h generalizing s with
  | nil => rfl
  | cons e h ih => cases e <;> exact congrArg (· + 1) (ih _)

/-- The latest replacement of a run puts some catalogs in force, and others are inserted after
it. -/
def Latest (h : List ScopeChange) (cs added : List Catalog) : Prop :=
  ∃ before, h = before ++ .replace cs :: added.map .insert

/-- The documents of a history are those of its latest replacement and of the insertions since. -/
theorem Latest.documents_eq {h : List ScopeChange} {cs added : List Catalog}
    (hl : Latest h cs added) : documents h = cs ++ added := by
  obtain ⟨before, rfl⟩ := hl
  rw [documents, List.foldl_append, List.foldl_cons, given]
  induction added using List.reverseRecOn with
  | nil => exact (List.append_nil cs).symm
  | append_singleton added c ih =>
    rw [List.map_append, List.foldl_append, ih, ← List.append_assoc]
    rfl

theorem exists_latest (initial : List Catalog) (h : List ScopeChange) :
    ∃ cs added, Latest (.replace initial :: h) cs added := by
  induction h using List.reverseRecOn with
  | nil => exact ⟨initial, [], [], rfl⟩
  | append_singleton h e ih =>
    cases e with
    | replace cs => exact ⟨cs, [], .replace initial :: h, rfl⟩
    | insert c =>
      obtain ⟨cs, added, before, heq⟩ := ih
      refine ⟨cs, added ++ [c], before, ?_⟩
      rw [← List.cons_append, heq]
      simp

/-- What becomes of a scope of some catalogs when it is changed. -/
structure Account (initial : List Catalog) (h : List ScopeChange) (handed : List (Option Scope))
    (s : Scope) : Prop where
  /-- A replacement hands back the scope that the changes before it leave. -/
  length : handed.length = h.length
  handed : ∀ before e after, h = before ++ e :: after →
    handed[before.length]? = some (handedBack ((ofCatalogs initial).calls before).2 e)
  /-- The catalogs of the beginning count as a replacement, so there is always a latest one. -/
  latest : ∃ cs added, Latest (.replace initial :: h) cs added
  /-- Under an id there is the last catalog with the id, of those put in force by the latest
  replacement and of those inserted since. -/
  entry : ∀ cs added, Latest (.replace initial :: h) cs added →
    ∀ id found, s.get? id = some found ↔
      ∃ c, IsLast (fun c => c.id = id) (cs ++ added) c ∧ ScopedCatalog.ofCatalog c = found
  /-- A catalog is held under its own id and with the index of its own controls. -/
  own : ∀ id found, s.get? id = some found →
    found.catalog.id = id ∧ found.controls = ControlIndex.ofCatalog found.catalog

theorem account_of_calls (initial : List Catalog) (h : List ScopeChange) :
    Account initial h ((ofCatalogs initial).calls h).1 ((ofCatalogs initial).calls h).2 := by
  have hlast : ((ofCatalogs initial).calls h).2 = ofHistory (.replace initial :: h) :=
    snd_calls (ofCatalogs initial) h
  refine
    { length := length_fst_calls _ h
      handed := ?_
      latest := exists_latest initial h
      entry := ?_
      own := ?_ }
  · rintro before e after rfl
    exact getElem?_fst_calls _ before e after
  · intro cs added hl id found
    rw [hlast, get?_ofHistory_eq_some_iff, hl.documents_eq]
  · intro id found hfound
    rw [hlast, get?_ofHistory_eq_some_iff] at hfound
    obtain ⟨c, hc, rfl⟩ := hfound
    exact ⟨hc.holds, rfl⟩

end Scope

/-! ### Whole runs -/

/-- **What stores and scopes hold after any run of calls.**  Every run of registrations goes by its
account, and so does every run of changes of a scope.  The catalogs of a store tell what has been
gathered under each of them and nothing else, so registrations for different catalogs may be mixed
in any way, and plans may be registered in one go or in two. -/
theorem accounts_of_calls :
    (∀ h, PlanStore.Account h (PlanStore.calls {} h).1 (PlanStore.calls {} h).2) ∧
    (∀ h h', (PlanStore.calls {} h).2.catalogs = (PlanStore.calls {} h').2.catalogs ↔
      ∀ c, gathered c h = gathered c h') ∧
    (∀ h h' : List Registration,
      (∀ c : CatalogId, h.filter (·.catalog = c) = h'.filter (·.catalog = c)) →
        (PlanStore.calls {} h).2 = (PlanStore.calls {} h').2) ∧
    (∀ (before after : List Registration) (c : CatalogId) (ps qs : List AssessmentPlan),
      (PlanStore.calls {} (before ++ ⟨c, ps ++ qs⟩ :: after)).2.catalogs =
        (PlanStore.calls {} (before ++ ⟨c, ps⟩ :: ⟨c, qs⟩ :: after)).2.catalogs) ∧
    ∀ initial h, Scope.Account initial h ((Scope.ofCatalogs initial).calls h).1
      ((Scope.ofCatalogs initial).calls h).2 := by
  have hlast : ∀ h, (PlanStore.calls {} h).2 = PlanStore.ofHistory h := fun h =>
    congrArg Prod.snd (PlanStore.calls_eq {} h)
  refine ⟨PlanStore.account_of_calls, fun h h' => ?_, fun h h' hfilter => ?_, ?_,
    Scope.account_of_calls⟩
  · rw [hlast, hlast]
    exact PlanStore.catalogs_ofHistory_eq_iff
  · rw [hlast, hlast]
    exact PlanStore.ofHistory_eq_of_filter hfilter
  · intro before after c ps qs
    rw [hlast, hlast]
    exact PlanStore.catalogs_ofHistory_eq_iff.mpr fun d => gathered_split before after c d ps qs

/-- Registrations for two catalogs in either order, and a catalog that is inserted and then put in
force once more. -/
theorem accounts_of_calls_sample :
    let a : CatalogId := ⟨"a", by decide, by decide⟩
    let b : CatalogId := ⟨"b", by decide, by decide⟩
    let c : Catalog := ⟨a, []⟩
    (PlanStore.calls {} [⟨a, []⟩, ⟨b, []⟩]).2 = (PlanStore.calls {} [⟨b, []⟩, ⟨a, []⟩]).2 ∧
    ((Scope.ofCatalogs []).calls [.insert c, .replace [c]]).1[1]? =
      some (some (Scope.ofCatalogs [c])) ∧
    ((Scope.ofCatalogs []).calls [.insert c, .replace [c]]).2.get? a =
      some (ScopedCatalog.ofCatalog c) ∧
    (ScopedCatalog.ofCatalog c).catalog.id = a := by
  intro a b c
  obtain ⟨-, -, hmixed, -, hscope⟩ := accounts_of_calls
  have haccount := hscope [] [.insert c, .replace [c]]
  have hmixed := hmixed [⟨a, []⟩, ⟨b, []⟩] [⟨b, []⟩, ⟨a, []⟩] fun d => by
    have hne : a ≠ b := by decide
    by_cases ha : a = d <;> by_cases hb : b = d <;> simp_all
  have hlatest : Scope.Latest [.replace [], .insert c, .replace [c]] [c] [] :=
    ⟨[.replace [], .insert c], rfl⟩
  have hfound := (haccount.entry [c] [] hlatest a (.ofCatalog c)).mpr
    ⟨c, ⟨[], [], rfl, rfl, by simp⟩, rfl⟩
  exact ⟨hmixed, haccount.handed [.insert c] (.replace [c]) [] rfl, hfound,
    (haccount.own a _ hfound).1⟩

end Compliance
