import Compliance.Proofs.Mapping.Join

/-!
# How far a change reaches

A registration of plans changes what one catalog answers for rules, and so does a catalog that is
put in scope.  The resolver asks the catalogs in the order of their ids and takes the first answer,
so a change of one catalog is seen only through that catalog, and only if no smaller one answers
before it.

* `PlanStore.answer?` : what one catalog answers for a rule.
* `PlanStore.resolve_eq_mapped_iff` : the resolution is the answer of the least catalog that has
  one.
* `PlanStore.SameBut` : stores and scopes in which one catalog at most answers otherwise.
* `PlanStore.SameBut.resolve_eq_of_lt`, `PlanStore.SameBut.exists_mapped` : a catalog is not heard
  after a smaller one that has an answer, and one that has its first answer can only take over from
  a greater one.
* `Resolver.reach_of_change` : registrations, and catalogs that are put in scope, after any history.
-/

namespace Compliance

open Compliance.Text (trim)

theorem Identifier.ne_of_compare_eq_lt {kind : IdentifierKind} {a b : Identifier kind}
    (h : compare a b = .lt) : a ≠ b := by
  rintro rfl
  simp at h

namespace PlanStore

/-- What one catalog answers for a rule. -/
def answer? (s : PlanStore) (scope : Scope) (rule : RuleId) (c : CatalogId) : Option Metadata :=
  (s.catalogs.get? c).bind (match? rule scope c)

variable {s s' : PlanStore} {scope scope' : Scope} {rule : RuleId} {c d : CatalogId}
  {m m' : Metadata}

theorem catalogId_of_answer? (h : s.answer? scope rule c = some m) : m.catalogId = c.text := by
  obtain ⟨plans, -, hm⟩ := Option.bind_eq_some_iff.mp h
  obtain ⟨found, procedure, control, -, -, -, rfl⟩ := match?_eq_some_iff.mp hm
  rfl

/-! ### The first answer -/

/-- A catalog has an answer, and no smaller one has. -/
def Answers (s : PlanStore) (scope : Scope) (rule : RuleId) (c : CatalogId) (m : Metadata) : Prop :=
  s.answer? scope rule c = some m ∧ ∀ d, compare d c = .lt → s.answer? scope rule d = none

theorem Answers.unique (h : s.Answers scope rule c m) (h' : s.Answers scope rule d m') :
    m = m' := by
  obtain ⟨hm, hleast⟩ := h
  obtain ⟨hm', hleast'⟩ := h'
  cases hcd : compare c d with
  | lt =>
    rw [hleast' c hcd] at hm
    cases hm
  | eq =>
    obtain rfl : c = d := Std.LawfulEqOrd.eq_of_compare hcd
    exact Option.some.inj (hm.symm.trans hm')
  | gt =>
    rw [hleast d (Std.OrientedCmp.lt_of_gt hcd)] at hm'
    cases hm'

/-- Either some catalog is the least that has an answer, and the resolver takes it, or no catalog
has one. -/
theorem resolve_cases (s : PlanStore) (scope : Scope) (rule : RuleId) :
    (∃ c m, s.Answers scope rule c m ∧ s.resolve rule scope = .mapped m) ∨
      ((∀ c, s.answer? scope rule c = none) ∧ s.resolve rule scope = .unmapped rule) := by
  rw [resolve]
  split
  case h_1 m hfind =>
    obtain ⟨c, plans, hplans, hm, hleast⟩ := Table.exists_of_findSome?_entries hfind
    refine .inl ⟨c, m, ⟨?_, ?_⟩, rfl⟩
    · rw [answer?, hplans]
      exact hm
    · intro d hlt
      by_contra hsome
      obtain ⟨m', hm'⟩ := Option.ne_none_iff_exists'.mp hsome
      obtain ⟨plans', hplans', hmatch⟩ := Option.bind_eq_some_iff.mp hm'
      have hne := Identifier.ne_of_compare_eq_lt hlt
      exact Std.OrientedCmp.not_lt_of_lt (hleast d plans' m' hplans' hmatch hne) hlt
  case h_2 hfind =>
    refine .inr ⟨?_, rfl⟩
    intro c
    rw [answer?, Option.bind_eq_none_iff]
    intro plans hplans
    exact List.findSome?_eq_none_iff.mp hfind (c, plans) (Table.mem_entries_iff.mpr hplans)

/-- **The resolution is the answer of the least catalog that has one.** -/
theorem resolve_eq_mapped_iff :
    s.resolve rule scope = .mapped m ↔ ∃ c, s.Answers scope rule c m := by
  rcases s.resolve_cases scope rule with ⟨c, m', hc, hr⟩ | ⟨hnone, hr⟩
  · rw [hr]
    constructor
    · intro h
      obtain rfl : m' = m := by cases h; rfl
      exact ⟨c, hc⟩
    · rintro ⟨d, hd⟩
      rw [hc.unique hd]
  · rw [hr]
    refine iff_of_false (fun h => by cases h) ?_
    rintro ⟨c, hc, -⟩
    rw [hnone c] at hc
    cases hc

theorem resolve_congr (h : ∀ c, s'.answer? scope' rule c = s.answer? scope rule c) :
    s'.resolve rule scope' = s.resolve rule scope := by
  rcases s.resolve_cases scope rule with ⟨c, m, ⟨hm, hleast⟩, hr⟩ | ⟨hnone, hr⟩
  · rw [hr, resolve_eq_mapped_iff]
    refine ⟨c, ?_, ?_⟩
    · rw [h, hm]
    · intro d hd
      rw [h, hleast d hd]
  · rcases s'.resolve_cases scope' rule with ⟨c, m, ⟨hm, -⟩, -⟩ | ⟨-, hr'⟩
    · rw [h, hnone] at hm
      cases hm
    · rw [hr, hr']

/-! ### One catalog that answers otherwise -/

/-- Stores and scopes in which one catalog at most answers otherwise. -/
def SameBut (c : CatalogId) (rule : RuleId) (s : PlanStore) (scope : Scope) (s' : PlanStore)
    (scope' : Scope) : Prop :=
  ∀ d, d ≠ c → s'.answer? scope' rule d = s.answer? scope rule d

namespace SameBut

/-- If that catalog answers as before, the rule is resolved as before. -/
theorem resolve_eq (h : SameBut c rule s scope s' scope')
    (hc : s'.answer? scope' rule c = s.answer? scope rule c) :
    s'.resolve rule scope' = s.resolve rule scope := by
  refine resolve_congr ?_
  intro d
  by_cases hd : d = c
  · rw [hd, hc]
  · exact h d hd

/-- A smaller catalog that has an answer goes first, whatever becomes of this one. -/
theorem resolve_eq_of_lt (h : SameBut c rule s scope s' scope')
    (hm : s.resolve rule scope = .mapped m) (hlt : Text.ByteLT m.catalogId c.text) :
    s'.resolve rule scope' = s.resolve rule scope := by
  obtain ⟨k, hk, hleast⟩ := resolve_eq_mapped_iff.mp hm
  rw [catalogId_of_answer? hk] at hlt
  have hkc : compare k c = .lt := (Text.compare_eq_lt_iff k.text c.text).mpr hlt
  rw [hm, resolve_eq_mapped_iff]
  refine ⟨k, ?_, ?_⟩
  · rw [h k (Identifier.ne_of_compare_eq_lt hkc), hk]
  · intro d hd
    have hdc : compare d c = .lt := Std.TransCmp.lt_trans hd hkc
    rw [h d (Identifier.ne_of_compare_eq_lt hdc), hleast d hd]

/-- **A catalog that had no answer takes a rule from no smaller one, and takes none away.** -/
theorem exists_mapped (h : SameBut c rule s scope s' scope') (hc : s.answer? scope rule c = none)
    (hm : s.resolve rule scope = .mapped m) :
    ∃ m', s'.resolve rule scope' = .mapped m' ∧
      (m' ≠ m → m'.catalogId = c.text ∧ Text.ByteLT m'.catalogId m.catalogId) := by
  obtain ⟨k, hk, hleast⟩ := resolve_eq_mapped_iff.mp hm
  have hkc : k ≠ c := by
    rintro rfl
    rw [hc] at hk
    cases hk
  cases hnew : s'.answer? scope' rule c with
  | none =>
    -- the catalog is still silent, so nothing has changed
    have heq := h.resolve_eq (by rw [hnew, hc])
    exact ⟨m, by rw [heq, hm], fun hne => absurd rfl hne⟩
  | some m' =>
    have hname := catalogId_of_answer? hnew
    have hother := catalogId_of_answer? hk
    cases hcompare : compare c k with
    | lt =>
      -- it comes before the catalog that has answered so far, and so before all that have answers
      have hbefore : Text.ByteLT c.text k.text := (Text.compare_eq_lt_iff c.text k.text).mp hcompare
      refine ⟨m', resolve_eq_mapped_iff.mpr ⟨c, hnew, ?_⟩, fun _ => ⟨hname, ?_⟩⟩
      · intro d hd
        rw [h d (Identifier.ne_of_compare_eq_lt hd), hleast d (Std.TransCmp.lt_trans hd hcompare)]
      · rw [hname, hother]
        exact hbefore
    | eq => exact absurd (Std.LawfulEqOrd.eq_of_compare hcompare).symm hkc
    | gt =>
      have hafter : Text.ByteLT m.catalogId c.text := by
        rw [hother]
        exact (Text.compare_eq_lt_iff k.text c.text).mp (Std.OrientedCmp.lt_of_gt hcompare)
      exact ⟨m, by rw [h.resolve_eq_of_lt hm hafter, hm], fun hne => absurd rfl hne⟩

end SameBut

/-! ### Registrations and catalogs in scope -/

theorem sameBut_register (s : PlanStore) (scope : Scope) (rule : RuleId) (c : CatalogId)
    (plans : List AssessmentPlan) : SameBut c rule s scope (s.register c plans) scope := by
  intro d hd
  rw [answer?, answer?, register, Table.get?_insert_of_ne _ _ hd]

theorem sameBut_withCatalog (s : PlanStore) (scope : Scope) (rule : RuleId) (k : Catalog) :
    SameBut k.id rule s scope s (scope.withCatalog k) := by
  intro d hd
  have hmatch : match? rule (scope.withCatalog k) d = match? rule scope d := by
    funext plans
    rw [match?, match?, Scope.withCatalog, Table.get?_insert_of_ne _ _ hd]
  rw [answer?, answer?, hmatch]

theorem answer?_of_not_inScope (s : PlanStore) (rule : RuleId) (h : scope.get? c = none) :
    s.answer? scope rule c = none := by
  rw [answer?, Option.bind_eq_none_iff]
  intro plans _
  rw [match?, h]
  rfl

theorem match?_of_no_plans (scope : Scope) (rule : RuleId) (c : CatalogId) :
    match? rule scope c ⟨[], ProcedureIndex.ofPlans []⟩ = none := by
  cases hscope : scope.get? c <;> simp [match?, hscope, ProcedureIndex.ofPlans, Table.ofList]

/-- What a catalog answers after a history is what the plans say that are registered under it. -/
theorem answer?_ofHistory (h : List Registration) (scope : Scope) (rule : RuleId) (c : CatalogId) :
    (ofHistory h).answer? scope rule c =
      match? rule scope c ⟨plansUnder c h, ProcedureIndex.ofPlans (plansUnder c h)⟩ := by
  rw [answer?, get?_ofHistory]
  split
  · rfl
  case isFalse hc =>
    rw [plansUnder_eq_nil hc, match?_of_no_plans]
    rfl

theorem answer?_of_plansUnder_eq_nil {h : List Registration} (hc : plansUnder c h = [])
    (scope : Scope) (rule : RuleId) : (ofHistory h).answer? scope rule c = none := by
  rw [answer?_ofHistory, hc, match?_of_no_plans]

theorem answer?_register_of_unnamed (h : List Registration) (scope : Scope)
    {plans : List AssessmentPlan}
    (hplans : ∀ s ∈ procedureSites plans, trim s.procedure.id ≠ rule.text) :
    ((ofHistory h).register c plans).answer? scope rule c = (ofHistory h).answer? scope rule c := by
  have hindex : (ProcedureIndex.ofPlans (plansUnder c h ++ plans)).get? rule.text =
      (ProcedureIndex.ofPlans (plansUnder c h)).get? rule.text := by
    rw [ProcedureIndex.get?_ofPlans_append, ProcedureIndex.get?_ofPlans_eq_none_iff.mpr hplans]
    rfl
  have hregister : (ofHistory h).register c plans = ofHistory (h ++ [⟨c, plans⟩]) :=
    (ofHistory_concat h ⟨c, plans⟩).symm
  rw [hregister, answer?_ofHistory, answer?_ofHistory, plansUnder_concat, if_pos rfl]
  simp only [match?, hindex]

end PlanStore

/-! ### The resolver -/

/-- **How far a change reaches.**  Whatever has been registered and is in scope, plans that are
registered under a catalog make no difference to a rule if the catalog is not in scope, if no
procedure in them has the rule's id, or if a smaller catalog maps the rule; nor does a catalog that
is put in scope, if there are no plans under its id.  A catalog with an id that is not in scope yet,
and plans for a catalog that has none yet, leave a mapped rule mapped, and if they make a difference
to it, then it is mapped by that catalog, whose id is smaller than the one before. -/
theorem Resolver.reach_of_change (h : List Registration) (stores : Stores) (n : Nat) (scope : Scope)
    (rule : RuleId) :
    let resolver := Resolver.basic n
    let before := stores.insert n (.ofHistory h)
    (∀ c plans,
      scope.get? c = none ∨ (∀ s ∈ procedureSites plans, trim s.procedure.id ≠ rule.text) ∨
        (∃ m, resolver.metadata before rule scope = .mapped m ∧ Text.ByteLT m.catalogId c.text) →
      resolver.metadata (resolver.registerPlan before c plans).1 rule scope =
        resolver.metadata before rule scope) ∧
    (∀ k : Catalog, plansUnder k.id h = [] →
      resolver.metadata before rule (scope.withCatalog k) = resolver.metadata before rule scope) ∧
    (∀ (k : Catalog) m, scope.get? k.id = none → resolver.metadata before rule scope = .mapped m →
      ∃ m', resolver.metadata before rule (scope.withCatalog k) = .mapped m' ∧
        (m' ≠ m → m'.catalogId = k.id.text ∧ Text.ByteLT m'.catalogId m.catalogId)) ∧
    (∀ c plans m, plansUnder c h = [] → resolver.metadata before rule scope = .mapped m →
      ∃ m', resolver.metadata (resolver.registerPlan before c plans).1 rule scope = .mapped m' ∧
        (m' ≠ m → m'.catalogId = c.text ∧ Text.ByteLT m'.catalogId m.catalogId)) := by
  intro resolver before
  have hbefore (scope : Scope) :
      resolver.metadata before rule scope = (PlanStore.ofHistory h).resolve rule scope := by
    simp [resolver, before, Resolver.basic, Stores.store]
  have hafter (c : CatalogId) (plans : List AssessmentPlan) :
      resolver.metadata (resolver.registerPlan before c plans).1 rule scope =
        ((PlanStore.ofHistory h).register c plans).resolve rule scope := by
    simp [resolver, before, Resolver.basic, Stores.register, Stores.store]
  simp only [hbefore, hafter]
  refine ⟨?_, ?_, ?_, ?_⟩
  · intro c plans hirrelevant
    have hsame := PlanStore.sameBut_register (.ofHistory h) scope rule c plans
    rcases hirrelevant with hscope | hunnamed | ⟨m, hm, hlt⟩
    · refine hsame.resolve_eq ?_
      rw [PlanStore.answer?_of_not_inScope _ rule hscope,
        PlanStore.answer?_of_not_inScope _ rule hscope]
    · exact hsame.resolve_eq (PlanStore.answer?_register_of_unnamed h scope hunnamed)
    · exact hsame.resolve_eq_of_lt hm hlt
  · intro k hk
    refine (PlanStore.sameBut_withCatalog (.ofHistory h) scope rule k).resolve_eq ?_
    rw [PlanStore.answer?_of_plansUnder_eq_nil hk, PlanStore.answer?_of_plansUnder_eq_nil hk]
  · intro k m hk hm
    have hsilent := PlanStore.answer?_of_not_inScope (.ofHistory h) rule hk
    exact (PlanStore.sameBut_withCatalog (.ofHistory h) scope rule k).exists_mapped hsilent hm
  · intro c plans m hc hm
    have hsilent := PlanStore.answer?_of_plansUnder_eq_nil hc scope rule
    exact (PlanStore.sameBut_register (.ofHistory h) scope rule c plans).exists_mapped hsilent hm

/-- A rule that is mapped by the catalog `b`: the catalog `a` does not matter before it has plans
and is in scope, and may take the rule over when it has both. -/
theorem Resolver.reach_of_change_sample :
    let rule : RuleId := ⟨"AC-1", by decide, by decide⟩
    let a : CatalogId := ⟨"a", by decide, by decide⟩
    let b : CatalogId := ⟨"b", by decide, by decide⟩
    let plans : List AssessmentPlan := [⟨"AC", [⟨"AC-1-REQ", [⟨"AC-1", "Rotate keys"⟩]⟩]⟩]
    let families : List ControlFamily := [⟨"Access Control", [⟨"AC", []⟩]⟩]
    let scope := Scope.ofCatalogs [⟨b, families⟩]
    let resolver := Resolver.basic 0
    let before : Stores := Table.empty.insert 0 (.ofHistory [⟨b, plans⟩])
    let m : Metadata := ⟨"AC-1-REQ", "Access Control", "b", some "Rotate keys", [], []⟩
    resolver.metadata before rule scope = .mapped m ∧
    resolver.metadata (resolver.registerPlan before a plans).1 rule scope = .mapped m ∧
    resolver.metadata before rule (scope.withCatalog ⟨a, families⟩) = .mapped m ∧
    (∃ m', resolver.metadata before rule (scope.withCatalog ⟨a, families⟩) = .mapped m' ∧
      (m' ≠ m → m'.catalogId = "a" ∧ Text.ByteLT m'.catalogId "b")) ∧
    ∃ m', resolver.metadata (resolver.registerPlan before a plans).1 rule
        (scope.withCatalog ⟨a, families⟩) = .mapped m' ∧
      (m' ≠ m → m'.catalogId = "a" ∧ Text.ByteLT m'.catalogId "b") := by
  intro rule a b plans families scope resolver before m
  have hmapped : resolver.metadata before rule scope = .mapped m := by decide +kernel
  obtain ⟨hregister, hinsert, hscope, -⟩ :=
    Resolver.reach_of_change [⟨b, plans⟩] Table.empty 0 scope rule
  obtain ⟨-, -, -, hplans⟩ := Resolver.reach_of_change [⟨b, plans⟩] Table.empty 0
    (scope.withCatalog ⟨a, families⟩) rule
  have hsilent : scope.get? a = none := by decide +kernel
  have hnone : plansUnder a [⟨b, plans⟩] = [] := by decide +kernel
  have hwith : resolver.metadata before rule (scope.withCatalog ⟨a, families⟩) = .mapped m :=
    (hinsert ⟨a, families⟩ hnone).trans hmapped
  exact ⟨hmapped, (hregister a plans (.inl hsilent)).trans hmapped, hwith,
    hscope ⟨a, families⟩ m hsilent hmapped, hplans a plans m hnone hwith⟩

end Compliance
