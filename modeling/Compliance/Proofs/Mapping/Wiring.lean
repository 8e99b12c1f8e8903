import Compliance.Proofs.Mapping.Calls
import Compliance.Proofs.Mapping.Join
import Compliance.Proofs.Mapping.Registry
import Compliance.Service.State

/-!
# Resolvers and their stores

A basic resolver is made with a store of its own or over the shared one, and may then be registered
for several engines, or for none.  From then on a registration of plans reaches the store of the
resolver that it goes through, and every engine whose resolver reads that store, and nothing else.

* `Backing`, `Blueprint` : how resolvers are made and where they are put.
* `Stores.provideAll` : the stores of some resolvers, made one after the other.
* `Blueprint.Meets` : two routes to one store, as far as the blueprint says.
* `Blueprint.target_eq_iff` : these are the routes to one store.
* `ResolverSet.file`, `ResolverSet.files` : registrations by any route, and runs of them.
* `Blueprint.calls_files` : each store goes through a run of its own, whatever happens to the
  others.
* `Blueprint.stores_as_built` : the whole of it.
* `Service.stores_files_basic` : what it means for the service over one store.

That stores stay apart comes down to their numbers: a store that is made has a greater number than
every store there is.
-/

namespace Compliance

/-! ### Stores that are made -/

namespace Stores

/-- The greatest number of a store that has been made; the shared store is always there. -/
def last (s : Stores) : Nat := s.keys.getLast?.getD shared

theorem le_last {s : Stores} {n : Nat} (h : n ∈ s.keys) : n ≤ s.last := by
  obtain ⟨front, hfront⟩ : ∃ front, s.keys = front ++ [s.last] := by
    have hne := List.ne_nil_of_mem h
    refine ⟨s.keys.dropLast, ?_⟩
    rw [last, List.getLast?_eq_some_getLast hne, Option.getD_some, List.dropLast_append_getLast]
  have hpairs := s.pairwise_keys
  rw [hfront, List.pairwise_append] at hpairs
  rw [hfront] at h
  rcases List.mem_append.mp h with hn | hn
  · have hlt := hpairs.2.2 n hn s.last (List.mem_singleton_self _)
    exact Nat.le_of_lt (Nat.compare_eq_lt.mp hlt)
  · exact Nat.le_of_eq (List.mem_singleton.mp hn)

theorem get?_of_last_lt {s : Stores} {n : Nat} (h : s.last < n) : s.get? n = none := by
  rw [← Option.not_isSome_iff_eq_none, ← Table.mem_keys_iff]
  intro hmem
  have := le_last hmem
  omega

theorem last_add (s : Stores) : s.add.1.last = s.last + 1 := by
  have hwrite : s.add.1.entries = s.entries ++ [(s.last + 1, ({} : PlanStore))] := by
    refine Table.write_of_forall_lt fun e he => ?_
    have hmem : e.1 ∈ s.keys := List.mem_map_of_mem he
    exact Nat.compare_eq_lt.mpr (Nat.lt_succ_of_le (le_last hmem))
  rw [last, Table.keys, hwrite, List.map_append, List.map_singleton, List.getLast?_concat,
    Option.getD_some]

/-- A store that is made is empty, like those that are not, so no store changes. -/
theorem store_add (s : Stores) (n : Nat) : s.add.1.store n = s.store n := by
  have hadd : s.add.1 = s.insert (s.last + 1) {} := rfl
  rw [store, store, hadd, Table.get?_insert]
  by_cases hn : n = s.last + 1
  · rw [if_pos hn, get?_of_last_lt (by omega)]
    rfl
  · rw [if_neg hn]

theorem store_register (s : Stores) (n m : Nat) (c : CatalogId) (plans : List AssessmentPlan) :
    (s.register n c plans).store m =
      if m = n then (s.store n).register c plans else s.store m := by
  rw [store, register, Table.get?_insert]
  by_cases hm : m = n
  · rw [if_pos hm, if_pos hm]
    rfl
  · rw [if_neg hm, if_neg hm]
    rfl

end Stores

/-- How a basic resolver is made. -/
inductive Backing where
  /-- With a store of its own. -/
  | own
  /-- Over the shared store. -/
  | shared
  deriving DecidableEq, Repr

namespace Stores

/-- The store of a resolver that is made, and the stores after that. -/
def provide (s : Stores) : Backing → Nat × Stores
  | .own => (s.add.2, s.add.1)
  | .shared => (shared, s)

/-- The stores of resolvers that are made one after the other, and all stores after that. -/
def provideAll (s : Stores) : List Backing → List Nat × Stores
  | [] => ([], s)
  | b :: bs =>
    let (n, s) := s.provide b
    let (ns, s) := provideAll s bs
    (n :: ns, s)

theorem length_provideAll (s : Stores) (bs : List Backing) :
    (s.provideAll bs).1.length = bs.length := by
  induction bs generalizing s with
  | nil => rfl
  | cons b bs ih => exact congrArg (· + 1) (ih _)

theorem store_provideAll (s : Stores) (bs : List Backing) (n : Nat) :
    (s.provideAll bs).2.store n = s.store n := by
  induction bs generalizing s with
  | nil => rfl
  | cons b bs ih =>
    show ((s.provide b).2.provideAll bs).2.store n = s.store n
    rw [ih]
    cases b with
    | own => exact s.store_add n
    | shared => rfl

theorem last_provide (s : Stores) (b : Backing) :
    (s.provide b).2.last = s.last + [b].count .own := by
  cases b with
  | own => exact s.last_add
  | shared => rfl

/-- The number of a resolver's store: that of the shared one, or one after all stores that there
were and all that have been made since. -/
theorem getElem?_provideAll (s : Stores) (bs : List Backing) (i : Nat) :
    (s.provideAll bs).1[i]? = bs[i]?.map fun b =>
      match b with
      | .own => s.last + (bs.take i).count .own + 1
      | .shared => shared := by
  induction bs generalizing s i with
  | nil => rfl
  | cons b bs ih =>
    cases i with
    | zero => cases b <;> rfl
    | succ i =>
      show ((s.provide b).2.provideAll bs).1[i]? = _
      have hcount : (b :: bs.take i).count .own = [b].count .own + (bs.take i).count .own := by
        rw [← List.count_append, List.singleton_append]
      rw [ih, last_provide, List.getElem?_cons_succ, List.take_succ_cons, hcount, ← Nat.add_assoc]

end Stores

/-! ### Blueprints -/

/-- How basic resolvers are made, one after the other, and where they are put.  A resolver may be
put in several places, and of two for one engine the first counts. -/
structure Blueprint where
  made : List Backing
  fallback : Fin made.length
  registered : List (EngineName × Fin made.length)

/-- How plans reach a store. -/
inductive PlanRoute where
  /-- They are registered in the shared store itself. -/
  | direct
  /-- They are registered with the resolver of an engine. -/
  | through (engine : EngineName)
  deriving DecidableEq

namespace Blueprint

variable (b : Blueprint) (s : Stores)

/-- The stores after the resolvers have been made. -/
def stores : Stores := (s.provideAll b.made).2

/-- The number of a resolver's store. -/
def number (k : Fin b.made.length) : Nat :=
  (s.provideAll b.made).1.get (k.cast (s.length_provideAll b.made).symm)

/-- The set of resolvers. -/
def resolvers : ResolverSet :=
  (ResolverSet.attempts { fallback := .basic (b.number s b.fallback) }
    (b.registered.map fun e => ⟨e.1, .basic (b.number s e.2)⟩)).2

/-- The resolver of an engine. -/
def seat (e : EngineName) : Fin b.made.length :=
  ((b.registered.find? (·.1 = e)).map Prod.snd).getD b.fallback

/-- How the store at the end of a route has been made. -/
def backing : PlanRoute → Backing
  | .direct => .shared
  | .through e => b.made.get (b.seat e)

/-- The number of the store at the end of a route. -/
def target : PlanRoute → Nat
  | .direct => Stores.shared
  | .through e => b.number s (b.seat e)

/-- Two routes lead to one store: both to the shared one, or both through one resolver. -/
def Meets : PlanRoute → PlanRoute → Prop
  | .direct, r => b.backing r = .shared
  | .through e, .direct => b.backing (.through e) = .shared
  | .through e, .through e' =>
    b.seat e = b.seat e' ∨ (b.backing (.through e) = .shared ∧ b.backing (.through e') = .shared)

theorem number_eq (k : Fin b.made.length) :
    b.number s k =
      match b.made.get k with
      | .own => s.last + (b.made.take k).count .own + 1
      | .shared => Stores.shared := by
  have hget := s.getElem?_provideAll b.made k
  have hmade : k.val < (s.provideAll b.made).1.length := by
    rw [s.length_provideAll]
    exact k.2
  rw [List.getElem?_eq_getElem k.2, List.getElem?_eq_getElem hmade] at hget
  exact Option.some.inj hget

theorem number_eq_shared_iff (k : Fin b.made.length) :
    b.number s k = Stores.shared ↔ b.made.get k = .shared := by
  rw [number_eq]
  cases b.made.get k with
  | own => simp [Stores.shared]
  | shared => simp

/-- Resolvers with stores of their own have different stores. -/
theorem number_inj {k k' : Fin b.made.length} (hk : b.made.get k = .own)
    (h : b.number s k = b.number s k') : k = k' := by
  -- of two such resolvers the later one has a greater number
  have hlt : ∀ {i j : Fin b.made.length}, i < j → b.made.get i = .own → b.made.get j = .own →
      b.number s i < b.number s j := by
    intro i j hij hi hj
    rw [number_eq, hi, number_eq, hj]
    have hle : (b.made.take (i.val + 1)).count .own ≤ (b.made.take j.val).count .own :=
      (List.take_sublist_take_left (show i.val + 1 ≤ j.val from hij)).count_le _
    have hone : (b.made.take (i.val + 1)).count .own = (b.made.take i.val).count .own + 1 := by
      have hi' : b.made[i.val] = .own := hi
      rw [List.take_succ_eq_append_getElem i.2, List.count_append, hi', List.count_singleton_self]
    exact Nat.succ_lt_succ (Nat.add_lt_add_left (by omega) _)
  have hk' : b.made.get k' = .own := by
    cases hmade : b.made.get k' with
    | own => rfl
    | shared =>
      rw [(b.number_eq_shared_iff s k').mpr hmade, number_eq_shared_iff, hk] at h
      cases h
  rcases lt_trichotomy k k' with hlt' | heq | hgt
  · exact absurd h (Nat.ne_of_lt (hlt hlt' hk hk'))
  · exact heq
  · exact absurd h.symm (Nat.ne_of_lt (hlt hgt hk' hk))

/-- **Two routes lead to one store exactly if they meet.** -/
theorem target_eq_iff (r r' : PlanRoute) : b.target s r = b.target s r' ↔ b.Meets r r' := by
  -- where one of the stores is the shared one, both must be
  have hshared : ∀ r, b.target s r = Stores.shared ↔ b.backing r = .shared := by
    rintro (_ | e)
    · exact ⟨fun _ => rfl, fun _ => rfl⟩
    · exact b.number_eq_shared_iff s (b.seat e)
  cases r with
  | direct => exact eq_comm.trans (hshared r')
  | through e =>
    cases r' with
    | direct => exact hshared (.through e)
    | through e' =>
      constructor
      · intro h
        cases hback : b.made.get (b.seat e) with
        | own => exact .inl (b.number_inj s hback h)
        | shared =>
          refine .inr ⟨hback, (hshared _).mp (h.symm.trans ?_)⟩
          exact (b.number_eq_shared_iff s _).mpr hback
      · rintro (h | ⟨h, h'⟩)
        · exact congrArg (b.number s) h
        · exact ((hshared _).mpr h).trans ((hshared _).mpr h').symm

instance (r r' : PlanRoute) : Decidable (b.Meets r r') :=
  decidable_of_iff _ (b.target_eq_iff {} r r')

/-- An engine has the resolver that it has been given, over the store that this one was made
with. -/
theorem select_resolvers (e : EngineName) :
    (b.resolvers s).select e = .basic (b.target s (.through e)) := by
  rw [resolvers, ResolverSet.select_attempts_new, List.find?_map, target, seat]
  have hengine : ((fun a : ResolverSet.Attempt => decide (a.engine = e)) ∘
      fun r : EngineName × Fin b.made.length => ⟨r.1, .basic (b.number s r.2)⟩) =
        fun r => decide (r.1 = e) := rfl
  rw [hengine]
  cases b.registered.find? fun r => decide (r.1 = e) <;> rfl

theorem store_target_of_own {r : PlanRoute} (h : b.backing r = .own) :
    (b.stores s).store (b.target s r) = {} := by
  cases r with
  | direct => cases h
  | through e =>
    have hnumber := b.number_eq s (b.seat e)
    have hget : b.made.get (b.seat e) = .own := h
    rw [hget] at hnumber
    rw [stores, Stores.store_provideAll, target, hnumber, Stores.store,
      Stores.get?_of_last_lt (Nat.lt_succ_of_le (Nat.le_add_right _ _))]
    rfl

end Blueprint

/-! ### Registrations by any route -/

/-- Plans that are registered by some route. -/
structure Filing where
  route : PlanRoute
  registration : Registration

namespace ResolverSet

/-- What a registration gives, and the stores that it leaves. -/
def file (rs : ResolverSet) (t : Stores) (f : Filing) : Nat × Stores :=
  match f.route with
  | .direct =>
    let t := t.register Stores.shared f.registration.catalog f.registration.plans
    ((t.store Stores.shared).version, t)
  | .through e =>
    let (t, version) := (rs.select e).registerPlan t f.registration.catalog f.registration.plans
    (version, t)

/-- What the registrations of a run give, and the stores that they leave. -/
def files (rs : ResolverSet) (t : Stores) : List Filing → List Nat × Stores
  | [] => ([], t)
  | f :: fs =>
    let (version, t) := rs.file t f
    let (versions, t) := files rs t fs
    (version :: versions, t)

end ResolverSet

namespace Blueprint

variable (b : Blueprint) (s : Stores)

/-- **What a registration does**: it registers the plans in the store at the end of its route, and
gives the version of this store. -/
theorem file_eq (t : Stores) (f : Filing) :
    (b.resolvers s).file t f =
      ((t.store (b.target s f.route)).version + 1,
        t.register (b.target s f.route) f.registration.catalog f.registration.plans) := by
  obtain ⟨route, c, plans⟩ := f
  have hversion : ∀ n, ((t.register n c plans).store n).version = (t.store n).version + 1 := by
    intro n
    rw [Stores.store_register, if_pos rfl]
    rfl
  cases route with
  | direct => exact Prod.ext (hversion _) rfl
  | through e =>
    have hselect := b.select_resolvers s e
    simp only [ResolverSet.file, hselect]
    exact Prod.ext (hversion _) rfl

theorem store_file (t : Stores) (f : Filing) (r : PlanRoute) :
    ((b.resolvers s).file t f).2.store (b.target s r) =
      if b.Meets f.route r then
        (t.store (b.target s r)).register f.registration.catalog f.registration.plans
      else t.store (b.target s r) := by
  rw [file_eq, Stores.store_register]
  by_cases h : b.Meets f.route r
  · have heq := (b.target_eq_iff s f.route r).mpr h
    rw [if_pos h, if_pos heq.symm, heq]
  · have hne := (b.target_eq_iff s f.route r).not.mpr h
    rw [if_neg h, if_neg (Ne.symm hne)]

/-! ### Runs -/

/-- The registrations of a run that go to the store at the end of a route. -/
def reaching (r : PlanRoute) (fs : List Filing) : List Registration :=
  (fs.filter fun f => b.Meets f.route r).map Filing.registration

/-- The versions that these registrations give, among those of the whole run. -/
def versionsAt (r : PlanRoute) (fs : List Filing) (versions : List Nat) : List Nat :=
  ((fs.zip versions).filter fun x => b.Meets x.1.route r).map Prod.snd

/-- **A store goes through a run of its own**, whatever is registered elsewhere: that of the
registrations by the routes that lead to it. -/
theorem calls_files (t : Stores) (fs : List Filing) (r : PlanRoute) :
    (b.versionsAt r fs ((b.resolvers s).files t fs).1,
        ((b.resolvers s).files t fs).2.store (b.target s r)) =
      (t.store (b.target s r)).calls (b.reaching r fs) := by
  induction fs generalizing t with
  | nil => rfl
  | cons f fs ih =>
    have hstore := b.store_file s t f r
    have hih := ih ((b.resolvers s).file t f).2
    by_cases h : b.Meets f.route r
    · rw [if_pos h] at hstore
      rw [hstore] at hih
      have hversion : ((b.resolvers s).file t f).1 =
          ((t.store (b.target s r)).register f.registration.catalog
            f.registration.plans).version := by
        rw [file_eq, (b.target_eq_iff s f.route r).mpr h]
        rfl
      have hreaching : b.reaching r (f :: fs) = f.registration :: b.reaching r fs := by
        simp [reaching, h]
      have hversions : b.versionsAt r (f :: fs) ((b.resolvers s).files t (f :: fs)).1 =
          ((b.resolvers s).file t f).1 ::
            b.versionsAt r fs ((b.resolvers s).files ((b.resolvers s).file t f).2 fs).1 := by
        simp [versionsAt, ResolverSet.files, h]
      rw [hreaching, hversions, hversion, PlanStore.calls, ← hih]
      rfl
    · rw [if_neg h] at hstore
      rw [hstore] at hih
      have hreaching : b.reaching r (f :: fs) = b.reaching r fs := by
        simp [reaching, h]
      have hversions : b.versionsAt r (f :: fs) ((b.resolvers s).files t (f :: fs)).1 =
          b.versionsAt r fs ((b.resolvers s).files ((b.resolvers s).file t f).2 fs).1 := by
        simp [versionsAt, ResolverSet.files, h]
      rw [hreaching, hversions, ← hih]
      rfl

/-- **Of the routes to one store any may be taken**: a run gives the same versions and leaves the
same stores if the same plans are registered by routes to the same stores. -/
theorem files_eq_of_meets (t : Stores) {fs fs' : List Filing}
    (h : List.Forall₂ (fun f f' => f.registration = f'.registration ∧ b.Meets f.route f'.route)
      fs fs') :
    (b.resolvers s).files t fs = (b.resolvers s).files t fs' := by
  induction h generalizing t with
  | nil => rfl
  | cons hf _ ih =>
    obtain ⟨hregistration, hmeets⟩ := hf
    have hfile : ∀ f f' : Filing, f.registration = f'.registration → b.Meets f.route f'.route →
        (b.resolvers s).file t f = (b.resolvers s).file t f' := by
      intro f f' hregistration hmeets
      rw [file_eq, file_eq, hregistration, (b.target_eq_iff s _ _).mpr hmeets]
    simp only [ResolverSet.files, hfile _ _ hregistration hmeets, ih]

/-! ### Stores as built -/

/-- What a registration gives, and what it leaves. -/
structure Filed (t : Stores) (f : Filing) (version : Nat) (t' : Stores) : Prop where
  /-- It gives the version of the store that it reaches. -/
  version : version = (t'.store (b.target s f.route)).version
  /-- The version of this store goes up by one, by whatever route it is seen, and no other. -/
  versions : ∀ r, (t'.store (b.target s r)).version =
    (t.store (b.target s r)).version + if b.Meets f.route r then 1 else 0
  /-- No other store changes, be it that of a resolver or not. -/
  others : ∀ n, n ≠ b.target s f.route → t'.store n = t.store n
  /-- What is known about a rule changes only for engines whose resolver reads this store. -/
  metadata : ∀ e rule scope,
    ((b.resolvers s).select e).metadata t' rule scope ≠
        ((b.resolvers s).select e).metadata t rule scope →
      b.Meets f.route (.through e)

theorem filed (t : Stores) (f : Filing) :
    b.Filed s t f ((b.resolvers s).file t f).1 ((b.resolvers s).file t f).2 := by
  refine
    { version := ?_
      versions := fun r => ?_
      others := fun n hn => ?_
      metadata := fun e rule scope hchanged => ?_ }
  · rw [file_eq, Stores.store_register, if_pos rfl]
    rfl
  · rw [store_file]
    split <;> rfl
  · rw [file_eq, Stores.store_register, if_neg hn]
  · by_contra hmeets
    have hstore := b.store_file s t f (.through e)
    rw [if_neg hmeets] at hstore
    rw [select_resolvers] at hchanged
    exact hchanged (congrArg (·.resolve rule scope) hstore)

/-- **Plan stores are apart or shared as they have been built.**  Every engine has the resolver over
the store that this was made with; stores of resolvers' own start without plans, and making them
changes no other.  Each registration, at any point of a run and by any route, reaches one store: it
gives the next version of this store, and changes no other store, no other version, and nothing that
is known through resolvers over other stores.  In a whole run each store goes through the
registrations that reach it as if there were no others, and it does not matter by which of the
routes to a store they are made, be it directly, through an engine with a resolver over it, or
through the fallback. -/
theorem stores_as_built :
    (∀ e, (b.resolvers s).select e = .basic (b.target s (.through e))) ∧
    (∀ n, (b.stores s).store n = s.store n) ∧
    (∀ r, b.backing r = .own → (b.stores s).store (b.target s r) = {}) ∧
    (∀ t f, b.Filed s t f ((b.resolvers s).file t f).1 ((b.resolvers s).file t f).2) ∧
    (∀ t fs r, (b.versionsAt r fs ((b.resolvers s).files t fs).1,
        ((b.resolvers s).files t fs).2.store (b.target s r)) =
      (t.store (b.target s r)).calls (b.reaching r fs)) ∧
    ∀ t fs fs', List.Forall₂ (fun f f' : Filing =>
        f.registration = f'.registration ∧ b.Meets f.route f'.route) fs fs' →
      (b.resolvers s).files t fs = (b.resolvers s).files t fs' :=
  ⟨b.select_resolvers s, s.store_provideAll b.made, fun _ => b.store_target_of_own s, b.filed s,
    b.calls_files s, fun t _ _ => b.files_eq_of_meets s t⟩

/-- An engine with a store of its own, one over the shared store, and one without a resolver: the
latter two stand for each other and for the shared store itself, so that a plan which is registered
through one of them maps its rule for both, and the first is left alone. -/
theorem stores_as_built_sample :
    let opa : EngineName := ⟨"opa", by decide, by decide⟩
    let kyverno : EngineName := ⟨"kyverno", by decide, by decide⟩
    let gatekeeper : EngineName := ⟨"gatekeeper", by decide, by decide⟩
    let r : Registration := ⟨Catalog.sample.id, [.sample]⟩
    let b : Blueprint := ⟨[.shared, .own], 0, [(opa, 1), (kyverno, 0)]⟩
    let fs : List Filing := [⟨.through gatekeeper, r⟩, ⟨.through opa, r⟩, ⟨.through kyverno, r⟩]
    let after := (b.resolvers {}).files (b.stores {}) fs
    let once := ((b.resolvers {}).file (b.stores {}) ⟨.through kyverno, r⟩).2
    let known (t : Stores) (e : EngineName) :=
      ((b.resolvers {}).select e).metadata t PolicyRef.sample.rule (.ofCatalogs [.sample])
    after = (b.resolvers {}).files (b.stores {})
      [⟨.direct, r⟩, ⟨.through opa, r⟩, ⟨.through gatekeeper, r⟩] ∧
    b.versionsAt .direct fs after.1 = [1, 2] ∧ b.versionsAt (.through opa) fs after.1 = [1] ∧
    (known (b.stores {}) gatekeeper = .unmapped PolicyRef.sample.rule ∧
      known once gatekeeper = .mapped .sample) ∧
    ∀ rule scope, ((b.resolvers {}).select opa).metadata once rule scope =
      ((b.resolvers {}).select opa).metadata (b.stores {}) rule scope := by
  intro opa kyverno gatekeeper r b fs after once known
  obtain ⟨-, hkept, hempty, hfiled, hcalls, hroutes⟩ := b.stores_as_built {}
  have hopa : ¬ b.Meets (.through kyverno) (.through opa) := by decide
  refine ⟨?_, ?_, ?_, ⟨?_, ?_⟩, fun rule scope => ?_⟩
  · refine hroutes _ _ _ (.cons ⟨rfl, ?_⟩ (.cons ⟨rfl, .inl rfl⟩ (.cons ⟨rfl, ?_⟩ .nil))) <;> decide
  · have hrun := hcalls (b.stores {}) fs .direct
    rw [hkept, PlanStore.calls_eq] at hrun
    exact (Prod.mk.inj hrun).1.trans (by decide)
  · have hrun := hcalls (b.stores {}) fs (.through opa)
    rw [hempty _ (by decide), PlanStore.calls_eq] at hrun
    exact (Prod.mk.inj hrun).1.trans (by decide)
  · decide +kernel
  · decide +kernel
  · by_contra hchanged
    exact hopa ((hfiled _ _).metadata opa rule scope hchanged)

end Blueprint

/-! ### The service over one store -/

namespace Service

theorem stores_foldl_registerPlan (s : Service) (fs : List Filing) :
    (fs.foldl (fun s f => s.registerPlan f.registration.catalog f.registration.plans) s).stores =
      (s.resolvers.files s.stores (fs.map fun f => { f with route := .direct })).2 := by
  induction fs generalizing s with
  | nil => rfl
  | cons f fs ih => exact ih (s.registerPlan f.registration.catalog f.registration.plans)

/-- The service that resolves all rules from one store is built with a single resolver over the
shared store: by whatever engines plans are registered, they are there as if the service itself had
registered them. -/
theorem stores_files_basic (scope : Scope) (plans : PlanStore) (fs : List Filing) :
    let s := basic scope plans
    (s.resolvers.files s.stores fs).2 =
      (fs.foldl (fun s f => s.registerPlan f.registration.catalog f.registration.plans)
        s).stores := by
  intro s
  let b : Blueprint := ⟨[.shared], 0, []⟩
  rw [stores_foldl_registerPlan]
  refine congrArg Prod.snd (b.files_eq_of_meets {} s.stores ?_)
  rw [List.forall₂_map_right_iff]
  refine List.forall₂_same.mpr fun f _ => ⟨rfl, ?_⟩
  cases hroute : f.route <;> rfl

end Service

end Compliance
