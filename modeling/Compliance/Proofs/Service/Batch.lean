import Compliance.Proofs.Client.Run
import Compliance.Proofs.Service.Routes

/-!
# Batches against single questions

A policy may be asked about alone, in a batch, or together with evidence.  The service looks it up
in one way on all three routes, and a batch looks up each of its policies without regard to the
others.  So a batch is as good as its policies asked one by one, and may be cut and shuffled at
will.

* `Service.getElem?_resolveItems`, `Service.resolveItems_append` : the items of a batch, by place
  and by parts.
* `Service.answerBatch_eq` : a batch as its length check and its items.
* `Service.Tells` : the service tells one thing about a policy on every route.
* `Service.ItemsApart` : no item of a batch depends on another.
* `Service.endpoints_agree` : batches of every length.
-/

namespace Compliance

/-- The item after `n` others have been put before its batch. -/
def BatchItem.shift (n : Nat) (i : BatchItem) : BatchItem := { i with index := i.index + n }

theorem BatchSummary.ofItems_of_forall {items : List BatchItem}
    (h : ∀ i ∈ items, i.outcome.isSome) :
    ofItems items = ⟨items.length, items.length, 0⟩ := by
  rw [ofItems, List.countP_eq_length.mpr h, Nat.sub_self]

namespace Service

variable (s : Service)

/-! ### Items -/

theorem getElem?_resolveItems (ps : List PolicyRef) (i : Nat) :
    (s.resolveItems ps)[i]? = ps[i]?.map fun p => .resolved i p.rule (s.resolve p) :=
  List.getElem?_mapIdx

theorem length_resolveItems (ps : List PolicyRef) :
    (s.resolveItems ps).length = ps.length :=
  List.length_mapIdx

theorem resolveItems_append (ps qs : List PolicyRef) :
    s.resolveItems (ps ++ qs) =
      s.resolveItems ps ++ (s.resolveItems qs).map (BatchItem.shift ps.length) := by
  have hshift : (s.resolveItems qs).map (BatchItem.shift ps.length) =
      qs.mapIdx fun i q => BatchItem.resolved (i + ps.length) q.rule (s.resolve q) := by
    refine List.ext_getElem? fun i => ?_
    rw [List.getElem?_map, getElem?_resolveItems, Option.map_map, List.getElem?_mapIdx]
    rfl
  rw [hshift]
  exact List.mapIdx_append

theorem map_outcome_resolveItems (ps : List PolicyRef) :
    (s.resolveItems ps).map (·.outcome) = ps.map fun p => some (s.resolve p) := by
  refine List.ext_getElem? fun i => ?_
  rw [List.getElem?_map, getElem?_resolveItems, Option.map_map, List.getElem?_map]
  rfl

theorem summary_resolveItems (ps : List PolicyRef) :
    BatchSummary.ofItems (s.resolveItems ps) = ⟨ps.length, ps.length, 0⟩ := by
  rw [← s.length_resolveItems ps]
  refine BatchSummary.ofItems_of_forall fun item hitem => ?_
  obtain ⟨i, hi, rfl⟩ := List.mem_mapIdx.mp hitem
  rfl

/-- A batch is checked for its length, and nothing else can go wrong with it. -/
theorem answerBatch_eq (ps : List PolicyRef) :
    s.answerBatch ps =
      (checkBatchLength ps.length s.maxBatchSize).map fun _ =>
        ⟨s.resolveItems ps, ⟨ps.length, ps.length, 0⟩⟩ := by
  rw [answerBatch, ResolverSet.answerBatch, ← s.summary_resolveItems]
  rfl

theorem answerBatch_of_fits {ps : List PolicyRef} (hpos : 1 ≤ ps.length)
    (hle : ps.length ≤ s.maxBatchSize) :
    s.answerBatch ps = .ok ⟨s.resolveItems ps, ⟨ps.length, ps.length, 0⟩⟩ := by
  rw [answerBatch_eq, (checkBatchLength_eq_ok_iff _ _).mpr ⟨hpos, hle⟩]
  rfl

theorem answerBatch_of_error {ps : List PolicyRef} {e : InputError}
    (h : checkBatchLength ps.length s.maxBatchSize = .error e) : s.answerBatch ps = .error e := by
  rw [answerBatch_eq, h]
  rfl

/-! ### Routes -/

/-- On every route the service tells `o` about the policy `p`. -/
structure Tells (b : BodyReader) (now : Time.Instant) (p : PolicyRef) (o : Resolution) :
    Prop where
  /-- Asked about the policy alone. -/
  alone : ∀ req : Request, req.path = "/v1/metadata" → req.method = "POST" →
    req.read b now .metadataRequest = .ok p →
      s.respond b now req = .json 200 Wire.metadataResponse o
  /-- Asked about evidence for the policy, to which only the verdict is added, however the engine's
  resolver judges the evidence. -/
  graded : ∀ (req : Request) (e : Evidence), req.path = "/v1/enrich" → req.method = "POST" →
    req.read b now .enrichRequest = .ok e → e.policy = p →
      s.respond b now req = .json 200 Wire.enrichResponse
        ⟨o.metadata, o.status, (s.resolvers.select p.engine).verdict e⟩
  /-- By its outcome, if the resolver sees nothing else in it. -/
  evidence : (s.resolvers.select p.engine).verdict = Evidence.verdict →
    ∀ (req : Request) (e : Evidence), req.path = "/v1/enrich" → req.method = "POST" →
      req.read b now .enrichRequest = .ok e → e.policy = p →
        s.respond b now req = .json 200 Wire.enrichResponse ⟨o.metadata, o.status, e.verdict⟩

theorem tells_resolve (b : BodyReader) (now : Time.Instant) (p : PolicyRef) :
    s.Tells b now p (s.resolve p) := by
  have hgraded (req : Request) (e : Evidence) (hpath : req.path = "/v1/enrich")
      (hmethod : req.method = "POST") (hread : req.read b now .enrichRequest = .ok e)
      (hpolicy : e.policy = p) : s.respond b now req = .json 200 Wire.enrichResponse
        ⟨(s.resolve p).metadata, (s.resolve p).status,
          (s.resolvers.select p.engine).verdict e⟩ := by
    subst hpolicy
    exact s.respond_enrich b now hpath hmethod hread
  refine ⟨fun _ => s.respond_metadata b now, hgraded, ?_⟩
  intro hdefault req e hpath hmethod hread hp
  rw [hgraded req e hpath hmethod hread hp, hdefault]

/-! ### Batches -/

/-- No item of a batch depends on another. -/
structure ItemsApart (b : BodyReader) (now : Time.Instant) (ps : List PolicyRef) : Prop where
  length : (s.resolveItems ps).length = ps.length
  /-- Each policy has an item in its place, with what the service says about it elsewhere. -/
  answers : ∀ (i : Nat) (p : PolicyRef), ps[i]? = some p →
    ∃ o, (s.resolveItems ps)[i]? = some ⟨i, p.rule, some o, none⟩ ∧ s.Tells b now p o
  /-- Another batch with the same policy in a place has the same item there. -/
  apart : ∀ (qs : List PolicyRef) (i : Nat), qs[i]? = ps[i]? →
    (s.resolveItems qs)[i]? = (s.resolveItems ps)[i]?
  /-- If policies change places, so do their outcomes. -/
  moved : ∀ (qs : List PolicyRef) (place : Nat → Nat), (∀ i, qs[i]? = ps[place i]?) →
    ∀ i, (s.resolveItems qs)[i]?.map (·.outcome) = (s.resolveItems ps)[place i]?.map (·.outcome)
  permuted : ∀ qs : List PolicyRef, qs.Perm ps →
    ((s.resolveItems qs).map (·.outcome)).Perm ((s.resolveItems ps).map (·.outcome))
  append : ∀ qs : List PolicyRef,
    s.resolveItems (ps ++ qs) =
      s.resolveItems ps ++ (s.resolveItems qs).map (BatchItem.shift ps.length)

theorem itemsApart (b : BodyReader) (now : Time.Instant) (ps : List PolicyRef) :
    s.ItemsApart b now ps where
  length := s.length_resolveItems ps
  answers i p hp := by
    refine ⟨s.resolve p, ?_, s.tells_resolve b now p⟩
    rw [getElem?_resolveItems, hp]
    rfl
  apart qs i h := by rw [getElem?_resolveItems, getElem?_resolveItems, h]
  moved qs place h i := by
    simp only [getElem?_resolveItems, h i, Option.map_map]
    rfl
  permuted qs h := by
    rw [map_outcome_resolveItems, map_outcome_resolveItems]
    exact h.map _
  append qs := s.resolveItems_append ps qs

/-- **A batch is as good as its policies asked one by one.**  If its length is allowed, every policy
gets an item in its place, none has failed, and the item says what the service says about the policy
on its other routes; no item depends on another.  If its length is not allowed, the batch is refused
for that, and there are no items.  The route for batches adds nothing to this. -/
theorem endpoints_agree (b : BodyReader) (now : Time.Instant) (ps : List PolicyRef) :
    (1 ≤ ps.length → ps.length ≤ s.maxBatchSize →
      s.answerBatch ps = .ok ⟨s.resolveItems ps, ⟨ps.length, ps.length, 0⟩⟩) ∧
    (ps.length = 0 → s.answerBatch ps = .error .emptyBatch) ∧
    (1 ≤ ps.length → s.maxBatchSize < ps.length →
      s.answerBatch ps = .error (.batchTooLarge ps.length s.maxBatchSize)) ∧
    (∀ req : Request, req.path = "/v1/metadata/batch" → req.method = "POST" →
      req.read b now .batchRequest = .ok ps →
        s.respond b now req =
          match s.answerBatch ps with
          | .error e => .refusal (.invalid e)
          | .ok answer => .json 200 BatchAnswer.codec answer) ∧
    s.ItemsApart b now ps := by
  refine ⟨s.answerBatch_of_fits, fun hzero => ?_, fun hpos hlt => ?_, ?_, s.itemsApart b now ps⟩
  · apply s.answerBatch_of_error
    rw [checkBatchLength, if_pos hzero]
  · apply s.answerBatch_of_error
    rw [checkBatchLength, if_neg (by omega), if_pos hlt]
  · intro req hpath hmethod hread
    exact s.respond_batch b now hpath hmethod hread

/-- A rule that a plan maps, on all three routes, together with one that no plan maps, and batches
of none and of one too many. -/
theorem endpoints_agree_sample :
    let s := Service.sample
    let other : PolicyRef := ⟨PolicyRef.sample.engine, ⟨"AC-2", by decide, by decide⟩⟩
    s.answerBatch [other, .sample] = .ok ⟨s.resolveItems [other, .sample], ⟨2, 2, 0⟩⟩ ∧
    s.resolveItems [other, .sample] =
      [⟨0, other.rule, some (.unmapped other.rule), none⟩,
        ⟨1, PolicyRef.sample.rule, some (.mapped .sample), none⟩] ∧
    s.answerBatch [] = .error .emptyBatch ∧
    { s with maxBatchSize := 1 }.answerBatch [other, .sample] = .error (.batchTooLarge 2 1) ∧
    s.respond .terse .latest (.post "/v1/metadata/batch" (Wire.batchRequest.encode [])) =
      .refusal (.invalid .emptyBatch) ∧
    s.respond .terse .latest (.post "/v1/metadata" (Wire.metadataRequest.encode .sample)) =
      .json 200 Wire.metadataResponse (.mapped .sample) ∧
    s.respond .terse .latest
        (.post "/v1/enrich" ((Wire.enrichRequest .latest).encode .sample)) =
      .json 200 Wire.enrichResponse ⟨.sample, .mapped, .compliant⟩ := by
  intro s other
  obtain ⟨htwo, -, -, -, hitems⟩ := s.endpoints_agree .terse .latest [other, .sample]
  obtain ⟨-, hnone, -, hroute, -⟩ := s.endpoints_agree .terse .latest []
  obtain ⟨-, -, hlarge, -, -⟩ :=
    { s with maxBatchSize := 1 }.endpoints_agree .terse .latest [other, .sample]
  have hresolved : s.resolveItems [other, .sample] =
      [⟨0, other.rule, some (.unmapped other.rule), none⟩,
        ⟨1, PolicyRef.sample.rule, some (.mapped .sample), none⟩] := by decide +kernel
  obtain ⟨o, hitem, htells⟩ := hitems.answers 1 .sample rfl
  rw [hresolved] at hitem
  obtain rfl : Resolution.mapped .sample = o :=
    Option.some.inj (congrArg (·.outcome) (Option.some.inj hitem))
  refine ⟨htwo (by decide) (by decide), hresolved, hnone rfl, hlarge (by decide) (by decide), ?_,
    ?_, ?_⟩
  · have hread := Request.read_post .terse .latest (t := .batchRequest)
      (Wire.readsBack_batchRequest 124 []) "/v1/metadata/batch"
    exact (hroute _ (Request.path_post (by decide) _) rfl hread).trans (by rw [hnone rfl])
  · exact htells.alone _ (Request.path_post (by decide) _) rfl
      (Request.read_post _ _ (t := .metadataRequest)
        ((PolicyRef.sample.readsBack 125).member "policy") _)
  · exact htells.evidence rfl _ .sample (Request.path_post (by decide) _) rfl
      (Request.read_post _ _ (t := .enrichRequest)
        ((Evidence.sample.readsBack .latest 124).member "evidence") _) rfl

end Service

end Compliance
