import Compliance.Proofs.Client.Run
import Compliance.Proofs.Mapping.Padding

/-!
# Blanks around everything that has an id

Whoever uses the program writes its ids as texts: those of catalogs, engines and rules in commands,
and those of procedures in plans.  This file compares two runs whose texts differ in the blanks
around them, in any commands and at any places.  The users see the same, and the same is found, kept
and handed out from then on.

* `Session.Command`, `Session.Command.tidied` : a command with ids as they are written, and the same
  command with no blanks around them.
* `Session.perform`, `Session.performAll` : what a command does, and what some commands do.
* `Session.perform_tidied`, `Session.performAll_tidied` : tidy commands do to a tidy session what
  the commands themselves do.
* `Session.Indistinct` : sessions that hold and find the same.
* `Session.padding_ignored` : procedures, identifiers, and runs of commands.

A command is compared with its tidy form and not with another command.  Two commands that differ in
blanks have one tidy form, and a lemma about one run is then enough for two.
-/

namespace Compliance

open Compliance.Text (trim)

/-! ### Written ids -/

/-- A policy as it is written. -/
structure PolicyText where
  engine : String
  rule : String

namespace PolicyText

/-- The policy that is meant. -/
def read (p : PolicyText) : Except InputError PolicyRef := do
  return ⟨← Identifier.ofText .engine p.engine, ← Identifier.ofText .rule p.rule⟩

/-- The policy without the blanks around its ids. -/
def tidied (p : PolicyText) : PolicyText := ⟨trim p.engine, trim p.rule⟩

@[simp] theorem read_tidied (p : PolicyText) : p.tidied.read = p.read := by
  simp only [read, tidied, Identifier.ofText_trim]

/-- The policies that are meant; one that is not usable is refused with all others. -/
def readAll (ps : List PolicyText) : Except InputError (List PolicyRef) :=
  ps.mapM read

@[simp] theorem readAll_tidied (ps : List PolicyText) : readAll (ps.map tidied) = readAll ps := by
  simp only [readAll, List.mapM_map, Function.comp_def, read_tidied]

end PolicyText

/-- A catalog whose id is as it is written. -/
structure CatalogText where
  id : String
  families : List ControlFamily

namespace CatalogText

/-- The catalog that is meant. -/
def read (c : CatalogText) : Except InputError Catalog := do
  return ⟨← Identifier.ofText .catalog c.id, c.families⟩

/-- The catalog without the blanks around its id. -/
def tidied (c : CatalogText) : CatalogText := { c with id := trim c.id }

@[simp] theorem read_tidied (c : CatalogText) : c.tidied.read = c.read := by
  simp only [read, tidied, Identifier.ofText_trim]

/-- The catalogs that are meant; one that is not usable is refused with all others. -/
def readAll (cs : List CatalogText) : Except InputError (List Catalog) :=
  cs.mapM read

@[simp] theorem readAll_tidied (cs : List CatalogText) :
    readAll (cs.map tidied) = readAll cs := by
  simp only [readAll, List.mapM_map, Function.comp_def, read_tidied]

end CatalogText

/-! ### The service -/

namespace Service

/-- A service with tidy plans. -/
def tidied (w : Service) : Service := { w with stores := w.stores.tidied }

variable {w : Service} (hw : w.resolvers.IgnorePadding)

include hw

theorem resolve_tidied (p : PolicyRef) : w.tidied.resolve p = w.resolve p :=
  (hw p.engine).metadata w.stores p.rule w.scope

theorem enrich_tidied (e : Evidence) : w.tidied.enrich e = w.enrich e :=
  congrArg (·.enrich ((w.resolvers.select e.policy.engine).verdict e)) (resolve_tidied hw e.policy)

theorem teach_tidied : w.tidied.teach = w.teach := by
  funext c p
  rw [teach, resolve_tidied hw, teach]

theorem answerBatch_tidied (ps : List PolicyRef) : w.tidied.answerBatch ps = w.answerBatch ps := by
  have hitem : (fun (i : Nat) (p : PolicyRef) => BatchItem.resolved i p.rule (w.tidied.resolve p)) =
      fun i p => BatchItem.resolved i p.rule (w.resolve p) := by
    funext i p
    rw [resolve_tidied hw]
  have hitems : w.tidied.resolveItems ps = w.resolveItems ps := congrArg (ps.mapIdx ·) hitem
  exact congrArg (fun items => do
    checkBatchLength ps.length w.maxBatchSize
    return BatchAnswer.mk items (.ofItems items)) hitems

end Service

namespace Session

/-! ### Commands -/

/-- What is written down for the program to do. -/
inductive Command where
  /-- An engine gets a resolver of its own. -/
  | registerResolver (engine : String) (r : { r : Resolver // r.IgnoresPadding })
  /-- Plans are registered in the shared store. -/
  | registerPlan (catalog : String) (plans : List AssessmentPlan)
  /-- Plans are registered through the resolver of an engine. -/
  | registerThrough (engine catalog : String) (plans : List AssessmentPlan)
  | insertCatalog (c : CatalogText)
  | replaceScope (cs : List CatalogText)
  /-- A policy is resolved by the service. -/
  | resolve (p : PolicyText)
  | batch (ps : List PolicyText)
  /-- Evidence for a policy is enriched. -/
  | retrieve (p : PolicyText) (evaluation : Evaluation) (observedAt : Time.Instant)
  | prefetch (ps : List PolicyText)

/-- A command with no blanks around the ids in it. -/
def Command.tidied : Command → Command
  | .registerResolver engine r => .registerResolver (trim engine) r
  | .registerPlan catalog plans => .registerPlan (trim catalog) (plans.map .tidied)
  | .registerThrough engine catalog plans =>
    .registerThrough (trim engine) (trim catalog) (plans.map .tidied)
  | .insertCatalog c => .insertCatalog c.tidied
  | .replaceScope cs => .replaceScope (cs.map .tidied)
  | .resolve p => .resolve p.tidied
  | .batch ps => .batch (ps.map .tidied)
  | .retrieve p evaluation observedAt => .retrieve p.tidied evaluation observedAt
  | .prefetch ps => .prefetch (ps.map .tidied)

/-- What the user sees of a command. -/
inductive Reply where
  /-- An id in the command is blank. -/
  | refused (e : InputError)
  | duplicate (e : RegistryError)
  | registered (version : Nat)
  | handedBack (scope : Scope)
  /-- The resolver that was selected, and what it says. -/
  | resolved (resolver : Resolver) (r : Resolution)
  | answered (r : Except InputError BatchAnswer)
  | retrieved (r : Except ClientError Enrichment)
  | prefetched (report : PrefetchReport)
  | done

/-- Acts on what has been read; if that is not usable, nothing happens. -/
def upon {α : Type} (s : Session Service) (read : Except InputError α)
    (act : α → Reply × Session Service) : Reply × Session Service :=
  match read with
  | .ok a => act a
  | .error e => (.refused e, s)

/-- Does what a command says. -/
def perform (s : Session Service) : Command → Reply × Session Service
  | .registerResolver engine r =>
    s.upon (Identifier.ofText .engine engine) fun engine =>
      let (answer, resolvers) := s.world.resolvers.register engine r
      let s := { s with world := { s.world with resolvers } }
      match answer with
      | .ok () => (.done, s)
      | .error e => (.duplicate e, s)
  | .registerPlan catalog plans =>
    s.upon (Identifier.ofText .catalog catalog) fun catalog =>
      let w := s.world.registerPlan catalog plans
      (.registered w.plans.version, { s with world := w })
  | .registerThrough engine catalog plans =>
    s.upon (Identifier.ofText .engine engine) fun engine =>
      s.upon (Identifier.ofText .catalog catalog) fun catalog =>
        let r := (s.world.resolvers.select engine).registerPlan s.world.stores catalog plans
        (.registered r.2, { s with world := { s.world with stores := r.1 } })
  | .insertCatalog c =>
    s.upon c.read fun c => (.done, { s with world := s.world.insertCatalog c })
  | .replaceScope cs =>
    s.upon (CatalogText.readAll cs) fun cs =>
      (.handedBack s.world.scope, { s with world := s.world.replaceScope cs })
  | .resolve p =>
    s.upon p.read fun p =>
      (.resolved (s.world.resolvers.select p.engine) (s.world.resolve p), s)
  | .batch ps => s.upon (PolicyText.readAll ps) fun ps => (.answered (s.world.answerBatch ps), s)
  | .retrieve p evaluation observedAt =>
    s.upon p.read fun p =>
      let r := s.retrieve Service.source ⟨p, evaluation, observedAt⟩
      (.retrieved r.1, r.2)
  | .prefetch ps =>
    s.upon (PolicyText.readAll ps) fun ps =>
      let r := s.prefetch Service.source ps
      (.prefetched r.2, r.1)

/-- Does what some commands say, one after the other. -/
def performAll : Session Service → List Command → List Reply × Session Service
  | s, [] => ([], s)
  | s, c :: cs =>
    let (reply, s) := s.perform c
    let (replies, s) := s.performAll cs
    (reply :: replies, s)

/-! ### Tidy sessions -/

/-- A session over a service with tidy plans. -/
def tidied (s : Session Service) : Session Service := { s with world := s.world.tidied }

/-- An answer, and the tidy form of the session that it leaves. -/
def tidy (r : Reply × Session Service) : Reply × Session Service := (r.1, r.2.tidied)

variable {s : Session Service}

theorem upon_tidied {α : Type} {read : Except InputError α}
    {act act' : α → Reply × Session Service} (h : ∀ a, act' a = tidy (act a)) :
    s.tidied.upon read act' = tidy (s.upon read act) := by
  cases read with
  | error e => rfl
  | ok a => exact h a

section

variable (hs : s.world.resolvers.IgnorePadding)

include hs

theorem retrieve_tidied (e : Evidence) :
    s.tidied.retrieve Service.source e =
      ((s.retrieve Service.source e).1, (s.retrieve Service.source e).2.tidied) := by
  cases h : s.cache.get? e.policy.rule with
  | some r =>
    have h' : s.tidied.cache.get? e.policy.rule = some r := h
    rw [retrieve_of_cached _ h, retrieve_of_cached _ h']
  | none =>
    have h' : s.tidied.cache.get? e.policy.rule = none := h
    rw [retrieve, retrieve, resolve_local_of_uncached h, resolve_local_of_uncached h']
    simp only [tidied, Service.resolve_tidied hs, Service.teach_tidied hs]

theorem prefetch_tidied (ps : List PolicyRef) :
    s.tidied.prefetch Service.source ps =
      ((s.prefetch Service.source ps).1.tidied, (s.prefetch Service.source ps).2) := by
  rw [prefetch_local, prefetch_local]
  simp only [tidied, Service.teach_tidied hs]

/-- **A tidy command does to a tidy session what the command itself does to the session.** -/
theorem perform_tidied (c : Command) : s.tidied.perform c.tidied = tidy (s.perform c) := by
  cases c with
  | registerResolver engine r =>
    simp only [Command.tidied, perform, Identifier.ofText_trim]
    refine upon_tidied ?_
    intro engine
    change (match (s.world.resolvers.register engine r).1 with | .ok () => _ | .error e => _) = _
    cases (s.world.resolvers.register engine r).1 <;> rfl
  | registerPlan catalog plans =>
    simp only [Command.tidied, perform, Identifier.ofText_trim]
    refine upon_tidied ?_
    intro catalog
    have hworld : s.tidied.world.registerPlan catalog (plans.map .tidied) =
        (s.world.registerPlan catalog plans).tidied :=
      congrArg (fun stores => { s.world with stores }) (s.world.stores.register_tidied _ _ _)
    have hversion (w : Service) : w.tidied.plans.version = w.plans.version :=
      (congrArg PlanStore.version (w.stores.store_tidied Stores.shared) :)
    simp only [hworld, hversion]
    rfl
  | registerThrough engine catalog plans =>
    simp only [Command.tidied, perform, Identifier.ofText_trim]
    refine upon_tidied ?_
    intro engine
    refine upon_tidied ?_
    intro catalog
    have hregister := (hs engine).registerPlan s.world.stores catalog plans
    simp only [tidied, Service.tidied, hregister]
    rfl
  | insertCatalog c =>
    simp only [Command.tidied, perform, CatalogText.read_tidied]
    exact upon_tidied fun c => rfl
  | replaceScope cs =>
    simp only [Command.tidied, perform, CatalogText.readAll_tidied]
    exact upon_tidied fun cs => rfl
  | resolve p =>
    simp only [Command.tidied, perform, PolicyText.read_tidied]
    refine upon_tidied ?_
    intro p
    simp only [tidied, Service.resolve_tidied hs]
    rfl
  | batch ps =>
    simp only [Command.tidied, perform, PolicyText.readAll_tidied]
    refine upon_tidied ?_
    intro ps
    simp only [tidied, Service.answerBatch_tidied hs]
    rfl
  | retrieve p evaluation observedAt =>
    simp only [Command.tidied, perform, PolicyText.read_tidied]
    refine upon_tidied ?_
    intro p
    simp only [retrieve_tidied hs]
    rfl
  | prefetch ps =>
    simp only [Command.tidied, perform, PolicyText.readAll_tidied]
    refine upon_tidied ?_
    intro ps
    simp only [prefetch_tidied hs]
    rfl

theorem ignorePadding_upon {α : Type} {read : Except InputError α}
    {act : α → Reply × Session Service} (h : ∀ a, (act a).2.world.resolvers.IgnorePadding) :
    (s.upon read act).2.world.resolvers.IgnorePadding := by
  cases read with
  | error e => exact hs
  | ok a => exact h a

theorem ignorePadding_perform (c : Command) :
    (s.perform c).2.world.resolvers.IgnorePadding := by
  cases c with
  | registerResolver engine r =>
    rw [perform]
    refine ignorePadding_upon hs ?_
    intro engine
    have hset := hs.register engine r.2
    cases h : (s.world.resolvers.register engine r).1 with
    | ok _ => simpa only [h] using hset
    | error e => simpa only [h] using hset
  | registerPlan | insertCatalog | replaceScope | resolve | batch =>
    rw [perform]
    exact ignorePadding_upon hs fun _ => hs
  | registerThrough engine catalog plans =>
    rw [perform]
    exact ignorePadding_upon hs fun engine => ignorePadding_upon hs fun catalog => hs
  | retrieve p evaluation observedAt =>
    rw [perform]
    refine ignorePadding_upon hs ?_
    intro p
    obtain ⟨cache, h⟩ := s.exists_retrieve_local ⟨p, evaluation, observedAt⟩
    rw [h]
    exact hs
  | prefetch ps =>
    rw [perform]
    refine ignorePadding_upon hs ?_
    intro ps
    obtain ⟨cache, h⟩ := s.exists_prefetch_local ps
    dsimp only
    rw [h]
    exact hs

end

/-- **Tidy commands do to a tidy session what the commands themselves do to the session.** -/
theorem performAll_tidied (hs : s.world.resolvers.IgnorePadding) (cs : List Command) :
    s.tidied.performAll (cs.map .tidied) =
        ((s.performAll cs).1, (s.performAll cs).2.tidied) ∧
      (s.performAll cs).2.world.resolvers.IgnorePadding := by
  induction cs generalizing s with
  | nil => exact ⟨rfl, hs⟩
  | cons c cs ih =>
    obtain ⟨hrun, hkept⟩ := ih (ignorePadding_perform hs c)
    refine ⟨?_, hkept⟩
    simp only [List.map_cons, performAll, perform_tidied hs, tidy, hrun]

/-! ### Sessions that differ in blanks -/

/-- Sessions that keep the same, select the same resolvers and find the same, whatever they are
asked from now on. -/
structure Indistinct (s s' : Session Service) : Prop where
  cache : s.cache = s'.cache
  batchSize : s.batchSize = s'.batchSize
  resolvers : s.world.resolvers = s'.world.resolvers
  scope : s.world.scope = s'.world.scope
  metadata : ∀ n rule scope, (Resolver.basic n).metadata s.world.stores rule scope =
    (Resolver.basic n).metadata s'.world.stores rule scope
  enrich : ∀ e, s.world.enrich e = s'.world.enrich e
  answerBatch : ∀ ps, s.world.answerBatch ps = s'.world.answerBatch ps

theorem indistinct_of_tidied {s' : Session Service} (hs : s.world.resolvers.IgnorePadding)
    (h : s.tidied = s'.tidied) : Indistinct s s' := by
  have hworld : s.world.tidied = s'.world.tidied := congrArg world h
  have hstores : s.world.stores.tidied = s'.world.stores.tidied := congrArg Service.stores hworld
  have hresolvers : s.world.resolvers = s'.world.resolvers :=
    (congrArg Service.resolvers hworld :)
  have hs' : s'.world.resolvers.IgnorePadding := hresolvers ▸ hs
  refine
    { cache := congrArg (·.cache) h
      batchSize := congrArg (·.batchSize) h
      resolvers := hresolvers
      scope := (congrArg Service.scope hworld :)
      metadata := ?_
      enrich := ?_
      answerBatch := ?_ }
  · intro n rule scope
    have hbasic := (Resolver.ignoresPadding_basic n).metadata
    rw [← hbasic, hstores, hbasic]
  · intro e
    rw [← Service.enrich_tidied hs, hworld, Service.enrich_tidied hs']
  · intro ps
    rw [← Service.answerBatch_tidied hs, hworld, Service.answerBatch_tidied hs']

/-- **Blanks around ids make no difference.**  Texts are the same once trimmed exactly if they are
paddings of one text.  A procedure written as one text is found for a rule written as another
exactly if the two are the same once trimmed, and among many the last such procedure is found.
Identifiers of every kind take no notice of blanks.  And two runs of commands that are the same once
the ids of procedures, catalogs, engines and rules in them are trimmed get the same replies, with
the same resolvers selected, and leave sessions that keep and find the same; this holds for every
resolver that takes no notice of blanks, as the basic ones do. -/
theorem padding_ignored (s : Session Service) (hs : s.world.resolvers.IgnorePadding)
    (cs cs' : List Command) (hcs : cs.map Command.tidied = cs'.map Command.tidied) :
    (∀ t t', trim t = trim t' ↔ ∃ core, Text.Pads core t ∧ Text.Pads core t') ∧
    (∀ p t : String, trim t ≠ "" → ∃ rule, Identifier.ofText .rule t = .ok rule ∧
      (∀ control requirement documentation,
        (ProcedureIndex.ofPlans [⟨control, [⟨requirement, [⟨p, documentation⟩]⟩]⟩]).get? rule.text =
          if trim p = trim t then some ⟨control, requirement, documentation⟩ else none) ∧
      ∀ plans e, (ProcedureIndex.ofPlans plans).get? rule.text = some e ↔
        ∃ site, IsLast (fun site => trim site.procedure.id = trim t) (procedureSites plans) site ∧
          site.entry.2 = e) ∧
    (∀ kind : IdentifierKind, kind.IgnoresPadding) ∧
    (∀ n, (Resolver.basic n).IgnoresPadding) ∧
    (s.performAll cs).1 = (s.performAll cs').1 ∧
    Indistinct (s.performAll cs).2 (s.performAll cs').2 := by
  obtain ⟨hrun, hkept⟩ := performAll_tidied hs cs
  obtain ⟨hrun', -⟩ := performAll_tidied hs cs'
  rw [hcs, hrun'] at hrun
  obtain ⟨hreplies, hsessions⟩ := Prod.mk.inj hrun
  refine ⟨fun _ _ => Text.trim_eq_trim_iff, ?_, IdentifierKind.ignoresPadding,
    Resolver.ignoresPadding_basic, hreplies.symm, indistinct_of_tidied hkept hsessions.symm⟩
  intro p t ht
  obtain ⟨rule, hrule⟩ := Identifier.exists_ofText .rule ht
  refine ⟨rule, hrule, ?_, ProcedureIndex.get?_ofPlans_of_ofText hrule⟩
  intro control requirement documentation
  exact ProcedureIndex.get?_ofPlans_singleton hrule control requirement ⟨p, documentation⟩

/-- Commands that put a catalog in scope, register a plan for it and ask about a rule, by the texts
for the catalog, the procedure and the policy. -/
def mapping (catalog procedure : String) (p : PolicyText) : List Command :=
  [.insertCatalog ⟨catalog, [⟨"Access Control", [⟨"AC", []⟩]⟩]⟩,
    .registerPlan catalog [⟨"AC", [⟨"AC-1-REQ", [⟨procedure, "Rotate keys"⟩]⟩]⟩],
    .batch [p]]

/-- A rule is mapped though there are blanks around every id, among them a no-break space and an
ideographic one. -/
theorem padding_ignored_sample :
    let s : Session Service := { world := .basic {} {} }
    let plain := mapping "cat-A" "AC-1" ⟨"opa", "AC-1"⟩
    let padded := mapping " cat-A\u00a0" "\tAC-1 " ⟨"opa\n", "\u3000AC-1"⟩
    let m : Metadata := ⟨"AC-1-REQ", "Access Control", "cat-A", some "Rotate keys", [], []⟩
    (s.performAll padded).1 =
        [.done, .registered 1, .answered (.ok
          ⟨[.resolved 0 PolicyRef.sample.rule (.mapped m)], ⟨1, 1, 0⟩⟩)] ∧
      Indistinct (s.performAll plain).2 (s.performAll padded).2 := by
  intro s plain padded m
  have hs : s.world.resolvers.IgnorePadding := fun _ => Resolver.ignoresPadding_basic Stores.shared
  have htidy : plain.map Command.tidied = padded.map Command.tidied := rfl
  obtain ⟨-, -, -, -, hreplies, hsessions⟩ := padding_ignored s hs plain padded htidy
  refine ⟨?_, hsessions⟩
  rw [← hreplies]
  rfl

end Session

end Compliance
