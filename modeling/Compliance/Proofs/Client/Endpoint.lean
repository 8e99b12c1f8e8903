import Compliance.Proofs.Client.Enrich
import Compliance.Proofs.Client.Prefetch
import Compliance.Proofs.Service.Acceptance

/-!
# A record and the endpoint

Evidence can reach the service in two ways.  A record carries it to a session, which asks a service
in the same program and writes what it learns under eight keys of the record; or it is posted to the
endpoint as JSON, and the answer comes back as JSON.  Both say the same, value by value, as long as
the session has to ask.

* `Json.at?` : the value at a path within a JSON value.
* `Record.answerPaths` : where the answer of the endpoint says what a record holds under a key.
* `Record.writtenUnder_eq_at?` : what an enrichment writes is what its JSON says in these places.
* `Record.evidence_at` : a record's evidence at another time.
* `Session.record_as_posted` : a record before a session against its evidence before the endpoint.

The two ways share nothing but the resolver: the proof runs each to its end and then compares two
enrichments of one resolution, by the table of paths.
-/

namespace Compliance

/-- The value at a path of names within a JSON value. -/
def Json.at? : Json → List String → Option Json
  | j, [] => some j
  | .object members, name :: path =>
    match members.find? (·.1 = name) with
    | some (_, j) => j.at? path
    | none => none
  | _, _ :: _ => none

namespace Record

/-! ### Two notations of an enrichment -/

/-- Under which key a record holds what an answer says, and where the answer says it. -/
def answerPaths : List (String × List String) :=
  [ (verdictKey, ["result", "verdict"]),
    (controlKey, ["result", "metadata", "controlId"]),
    (catalogKey, ["result", "metadata", "catalogId"]),
    (categoryKey, ["result", "metadata", "category"]),
    (requirementsKey, ["result", "metadata", "requirements"]),
    (frameworksKey, ["result", "metadata", "frameworks"]),
    (statusKey, ["result", "enrichmentStatus"]),
    (remediationKey, ["result", "metadata", "remediationDescription"]) ]

theorem map_fst_answerPaths : answerPaths.map Prod.fst = complianceKeys := rfl

theorem isSome_writtenUnder_iff (x : Enrichment) (k : String) :
    (writtenUnder x k).isSome ↔ k ∈ (written x).map Prod.fst := by
  rw [writtenUnder, Option.isSome_map, List.find?_isSome, List.mem_map]
  simp only [decide_eq_true_eq]

/-- **Both notations say the same**, and neither mentions advice that there is not. -/
theorem writtenUnder_eq_at? (x : Enrichment) :
    ∀ f ∈ answerPaths, (writtenUnder x f.1).map AttributeValue.codec.write =
      (Wire.enrichResponse.write x).at? f.2 := by
  intro f hf
  simp only [answerPaths, List.mem_cons, List.not_mem_nil, or_false] at hf
  obtain ⟨⟨_, _, _, remediation, _, _⟩, _, _⟩ := x
  cases remediation <;> rcases hf with rfl | rfl | rfl | rfl | rfl | rfl | rfl | rfl <;> rfl

/-! ### Evidence at another time -/

theorem evidence_at {r : Record} {now : Time.Instant} {e : Evidence} (h : r.evidence now = .ok e)
    (later : Time.Instant) :
    r.evidence later = .ok { e with observedAt := r.timestamp.getD later } := by
  simp only [evidence, Codec.bind_eq_ok_iff] at h
  obtain ⟨rule, hrule, ruleId, hruleId, engine, hengine, engineName, hengineName, w, hw, he⟩ := h
  obtain rfl := Except.ok.inj he
  simp only [evidence, hrule, hruleId, hengine, hengineName, hw, Codec.ok_bind]
  rfl

end Record

namespace Session

/-! ### Both ways -/

/-- A record whose rule is not cached is enriched with what the service says about its evidence. -/
theorem enrichRecords_of_uncached {s : Session Service} (hw : s.world.JudgesByOutcome) {r : Record}
    {e : Evidence} {now : Time.Instant} (he : r.evidence now = .ok e)
    (huncached : s.cache.get? e.policy.rule = none) (later : Time.Instant) :
    s.enrichRecords Service.source later [r] =
      ([r.enriched (s.world.enrich e)], ⟨1, 1, 0, 0⟩,
        { s with cache := s.world.teach s.cache e.policy }) := by
  have hretrieve : s.retrieve Service.source { e with observedAt := r.timestamp.getD later } =
      (.ok (s.world.enrich e), { s with cache := s.world.teach s.cache e.policy }) := by
    rw [retrieve, resolve_local_of_uncached huncached, hw.enrich_eq]
    rfl
  rw [enrichRecords_eq, pass_cons,
    enrichRecord_of_retrieved Service.source later (Record.evidence_at he later) hretrieve]
  rfl

end Session

theorem Service.respond_encode (s : Service) (b : BodyReader) {e : Evidence} {req : Request}
    (hpath : req.path = "/v1/enrich") (hmethod : req.method = "POST") (hjson : req.IsJson)
    {now : Time.Instant} (hbody : req.body = ((Wire.enrichRequest now).encode e).toUTF8)
    (later : Time.Instant) :
    s.respond b later req = .json 200 Wire.enrichResponse (s.enrich e) := by
  have hread : b.read later .enrichRequest req.body = .ok e := by
    have hencode : (Wire.enrichRequest now).encode e = (Wire.enrichRequest later).encode e :=
      WireType.encode_eq now later .enrichRequest e
    rw [hbody, hencode]
    exact b.read_encode later (t := .enrichRequest) ((e.readsBack later 124).member "evidence")
  exact Route.respond_of_read (r := .enrich) s hpath hmethod hjson hread

namespace Session

/-- **A record says what the endpoint says**, where the resolvers judge evidence by its outcome.  If
a session does not know the rule of a record's evidence, then a pass over the record, whenever it
takes place, counts it as enriched, and the service answers when it is sent the evidence as JSON,
whenever that is.  Under each of the keys that belong to enrichments the record then holds what the
answer says in the place for it, or what it held before if the answer says nothing, which happens
for advice alone; and everything else in the record is as it was. -/
theorem record_as_posted (s : Session Service) (hw : s.world.JudgesByOutcome) {r : Record}
    {e : Evidence} {now : Time.Instant} (he : r.evidence now = .ok e)
    (huncached : s.cache.get? e.policy.rule = none) {req : Request}
    (hpath : req.path = "/v1/enrich") (hmethod : req.method = "POST") (hjson : req.IsJson)
    (hbody : req.body = ((Wire.enrichRequest now).encode e).toUTF8) (b : BodyReader)
    (passed asked : Time.Instant) :
    ∃ (x : Enrichment) (answer : Json) (r' : Record) (s' : Session Service),
      (s.world.respond b asked req).status = 200 ∧
      (s.world.respond b asked req).body = answer.render ∧
      Wire.enrichResponse.decode (s.world.respond b asked req).body = .ok x ∧
      s.enrichRecords Service.source passed [r] = ([r'], ⟨1, 1, 0, 0⟩, s') ∧
      r'.Carries x ∧ r.SameBesides r' ∧
      ∀ f ∈ Record.answerPaths,
        ((answer.at? f.2).isSome ↔ f.1 ∈ (Record.written x).map Prod.fst) ∧
        (f.1 ≠ Record.remediationKey → (answer.at? f.2).isSome) ∧
        (r'.attributes.get? f.1).map AttributeValue.codec.write =
          (answer.at? f.2).or ((r.attributes.get? f.1).map AttributeValue.codec.write) := by
  let x := s.world.enrich e
  refine ⟨x, Wire.enrichResponse.write x, r.enriched x, _, ?_, ?_, ?_,
    enrichRecords_of_uncached hw he huncached passed, r.carries_enriched x,
    r.sameBesides_enriched x, fun f hf => ?_⟩
  · rw [s.world.respond_encode b hpath hmethod hjson hbody]
    rfl
  · rw [s.world.respond_encode b hpath hmethod hjson hbody]
    rfl
  · rw [s.world.respond_encode b hpath hmethod hjson hbody]
    exact ((x.readsBack 123).member "result").decode_encode
  · have hkey : f.1 ∈ Record.complianceKeys :=
      Record.map_fst_answerPaths ▸ List.mem_map_of_mem hf
    rw [← Record.writtenUnder_eq_at? x f hf, Option.isSome_map, Record.get?_enriched]
    refine ⟨Record.isSome_writtenUnder_iff x f.1, Record.isSome_writtenUnder x hkey, ?_⟩
    cases Record.writtenUnder x f.1 <;> rfl

/-- A record with blanks around its texts, and the evidence that it carries. -/
def padded : Record :=
  ⟨none, Table.ofList [(Record.ruleKey, .text " AC-1"), (Record.engineKey, .text "opa "),
    (Record.evaluationKey, .text " Passed ")]⟩

/-- The record is enriched, and says about the control what the endpoint says. -/
theorem record_as_posted_sample :
    let s := fresh .sample 50
    let req := Request.post "/v1/enrich" ((Wire.enrichRequest .latest).encode .sample)
    padded.evidence .latest = .ok .sample ∧ s.cache.get? Evidence.sample.policy.rule = none ∧
      s.world.JudgesByOutcome ∧
      ∃ (answer : Json) (r' : Record), (s.world.respond .terse .latest req).body = answer.render ∧
        (s.enrichRecords Service.source .latest [padded]).1 = [r'] ∧
        (r'.attributes.get? Record.controlKey).map AttributeValue.codec.write =
          answer.at? ["result", "metadata", "controlId"] ∧
        r'.attributes.get? Record.controlKey = some (.text Metadata.sample.controlId) := by
  intro s req
  have he : padded.evidence .latest = .ok .sample := by decide +kernel
  have huncached : s.cache.get? Evidence.sample.policy.rule = none := rfl
  have hw : s.world.JudgesByOutcome := Service.judgesByOutcome_basic _ _
  have hpath : req.path = "/v1/enrich" := Request.path_post (by decide) _
  have hjson : req.IsJson := Request.isJson_iff.mpr ⟨_, rfl, by decide⟩
  have hbody : req.body = ((Wire.enrichRequest .latest).encode .sample).toUTF8 := by
    simp only [req, Request.post]
  obtain ⟨x, answer, r', s', -, hanswer, -, hpass, -, -, hfields⟩ :=
    record_as_posted s hw he huncached hpath rfl hjson hbody .terse .latest .latest
  obtain ⟨-, hsome, hsame⟩ := hfields (Record.controlKey, ["result", "metadata", "controlId"])
    (List.mem_cons_of_mem _ (List.mem_cons_self ..))
  obtain ⟨j, hj⟩ := Option.isSome_iff_exists.mp (hsome (by decide +kernel))
  refine ⟨he, huncached, hw, answer, r', hanswer, by rw [hpass],
    by rw [hsame, hj, Option.some_or], ?_⟩
  have hwritten : (s.enrichRecords Service.source .latest [padded]).1.map
      (·.attributes.get? Record.controlKey) = [some (.text Metadata.sample.controlId)] := by
    decide +kernel
  rw [hpass] at hwritten
  exact List.head_eq_of_cons_eq hwritten

end Session

end Compliance
