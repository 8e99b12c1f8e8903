import Compliance.Client.Http
import Compliance.Proofs.Service.Batch

/-!
# A service over HTTP

A client that reaches a service over HTTP cannot tell it from a service in the same program, as long
as it asks for no more policies at once than the service takes.  The network is modelled as a
transport that hands every body to the service, as a request to its route for batches, and brings
the reply back.

* `Service.transport` : that network.
* `HttpClient.fetch_transport` : what the client makes of the service's answer to a batch.
* `Session.Fits.step_eq`, `Session.Fits.fits_step` : one event of a session, over HTTP and in the
  same program.
* `HttpClient.transport_agrees` : batches of every length, and whole runs.

For single batches the proof follows the text there and back: the request is read back by the
service, and its answer by the client.  For runs it needs that no chunk of a prefetch is empty or
longer than the session's chunk size, and that no event changes what the service takes.
-/

namespace Compliance

/-! ### The service behind a network -/

/-- The request that carries a body to the route for batches. -/
def Request.batch (body : String) : Request :=
  .post "/v1/metadata/batch" body

/-- The network that takes every request to a service's route for batches. -/
def Service.transport (b : BodyReader) (now : Time.Instant) : Transport Service where
  send s r :=
    let reply := s.respond b now (.batch r.body)
    (.response reply.status reply.body, s)
  wait s _ := s

theorem Service.respond_batch_encode (s : Service) (b : BodyReader) (now : Time.Instant)
    (ps : List PolicyRef) :
    s.respond b now (.batch (Wire.batchRequest.encode ps)) =
      match s.answerBatch ps with
      | .error e => .refusal (.invalid e)
      | .ok answer => .json 200 BatchAnswer.codec answer :=
  s.respond_batch b now (Request.path_post (by decide) _) rfl
    (Request.read_post b _ (t := .batchRequest) (Wire.readsBack_batchRequest 124 ps) _)

/-! ### One batch -/

namespace HttpClient

variable (b : BodyReader)

theorem send_transport (p : RetryPolicy) (now : Time.Instant) (s : Service) (r : HttpRequest) :
    p.send (Service.transport b now) s r = (Service.transport b now).send s r := by
  rw [RetryPolicy.send]
  cases p.maxRetries <;> rfl

/-- What the client makes of the reply to a batch. -/
theorem fetch_transport (c : HttpClient) (now : Time.Instant) (s : Service)
    (ps : List PolicyRef) :
    (c.source (Service.transport b now)).fetch s ps =
      (itemsOf (match s.answerBatch ps with
        | .error e => .response 400 (ErrorBody.codec.encode ⟨"VALIDATION_ERROR", e.message⟩)
        | .ok answer => .response 200 (BatchAnswer.codec.encode answer)), s) := by
  show (itemsOf (c.retry.send (Service.transport b now) s (c.request ps)).1,
    (c.retry.send (Service.transport b now) s (c.request ps)).2) = _
  rw [send_transport]
  simp only [Service.transport, request, Service.respond_batch_encode]
  cases s.answerBatch ps <;> rfl

theorem itemsOf_answer {items : List BatchItem} (hlength : items.length < 0x10000000000000000)
    (hindex : ∀ i ∈ items, i.index < 0x10000000000000000) :
    itemsOf (.response 200 (BatchAnswer.codec.encode ⟨items, .ofItems items⟩)) = .ok items := by
  have hdecode := (BatchAnswer.readsBack hlength hindex 121).decode_encode
  rw [itemsOf, if_pos (by decide), hdecode]

theorem fetch_transport_of_fits (c : HttpClient) (now : Time.Instant) {s : Service}
    (hmax : s.maxBatchSize < 0x10000000000000000) {ps : List PolicyRef} (hpos : 1 ≤ ps.length)
    (hle : ps.length ≤ s.maxBatchSize) :
    (c.source (Service.transport b now)).fetch s ps = (.ok (s.resolveItems ps), s) := by
  have hanswer : s.answerBatch ps = .ok ⟨s.resolveItems ps, .ofItems (s.resolveItems ps)⟩ := by
    rw [s.answerBatch_of_fits hpos hle, s.summary_resolveItems]
  -- the indices are places in the batch, which is not longer than a number of 64 bits
  have hlength := s.length_resolveItems ps
  have hindex : ∀ i ∈ s.resolveItems ps, i.index < ps.length := by
    intro i hi
    obtain ⟨n, hn, rfl⟩ := List.mem_mapIdx.mp hi
    exact hn
  rw [fetch_transport, hanswer]
  refine congrArg (·, s) (itemsOf_answer (by omega) fun i hi => ?_)
  have := hindex i hi
  omega

/-- A batch of any other length is refused, with the reason in the body. -/
theorem fetch_transport_of_error (c : HttpClient) (now : Time.Instant) {s : Service}
    {ps : List PolicyRef} {e : InputError}
    (h : checkBatchLength ps.length s.maxBatchSize = .error e) :
    (c.source (Service.transport b now)).fetch s ps =
      (.error (.refused endpoint 400 (ErrorBody.codec.encode ⟨"VALIDATION_ERROR", e.message⟩)),
        s) := by
  rw [fetch_transport, s.answerBatch_of_error h]
  rfl

end HttpClient

/-! ### Runs -/

namespace Session

/-- An event does not let the chunks of a session grow beyond a length. -/
def Event.Within (max : Nat) : Event → Prop
  | .resize n => n ≤ max
  | _ => True

/-- Every chunk that a session asks for is one that its service takes. -/
structure Fits (s : Session Service) : Prop where
  maxBatchSize_lt : s.world.maxBatchSize < 0x10000000000000000
  batchSize_le : s.batchSize ≤ s.world.maxBatchSize

variable (c : HttpClient) (b : BodyReader) (now : Time.Instant)

theorem Fits.fetch_eq {s : Session Service} (h : s.Fits) {ps : List PolicyRef}
    (hpos : 1 ≤ ps.length) (hle : ps.length ≤ s.batchSize) :
    (c.source (Service.transport b now)).fetch s.world ps = Service.source.fetch s.world ps :=
  HttpClient.fetch_transport_of_fits b c now h.maxBatchSize_lt hpos
    (Nat.le_trans hle h.batchSize_le)

theorem Fits.retrieve_eq {s : Session Service} (h : s.Fits) (e : Evidence) :
    s.retrieve (c.source (Service.transport b now)) e = s.retrieve Service.source e := by
  have hpos : 1 ≤ [e.policy].length := Nat.le_refl 1
  have hle : [e.policy].length ≤ s.batchSize := s.batchSize_pos
  have hfetch := h.fetch_eq c b now hpos hle
  simp only [retrieve, resolve, Source.fetchOne, hfetch]

theorem Fits.foldl_prefetchChunk_eq {s : Session Service} (h : s.Fits)
    {chunks : List (List PolicyRef)}
    (hchunks : ∀ chunk ∈ chunks, 1 ≤ chunk.length ∧ chunk.length ≤ s.batchSize)
    (report : PrefetchReport) :
    chunks.foldl (prefetchChunk (c.source (Service.transport b now))) (s, report) =
      chunks.foldl (prefetchChunk Service.source) (s, report) := by
  induction chunks generalizing s report with
  | nil => rfl
  | cons chunk chunks ih =>
    obtain ⟨hpos, hle⟩ := hchunks chunk (List.mem_cons_self ..)
    have hchunk : prefetchChunk (c.source (Service.transport b now)) (s, report) chunk =
        prefetchChunk Service.source (s, report) chunk := by
      simp only [prefetchChunk, h.fetch_eq c b now hpos hle]
    rw [List.foldl_cons, List.foldl_cons, hchunk, prefetchChunk_local]
    -- the chunk has left everything but the cache as it was
    let s' : Session Service := { s with cache := chunk.foldl s.world.teach s.cache }
    have hfits : s'.Fits := ⟨h.maxBatchSize_lt, h.batchSize_le⟩
    exact ih hfits (fun chunk' hc => hchunks chunk' (List.mem_cons_of_mem chunk hc)) _

theorem Fits.prefetch_eq {s : Session Service} (h : s.Fits) (ps : List PolicyRef) :
    s.prefetch (c.source (Service.transport b now)) ps = s.prefetch Service.source ps := by
  rw [prefetch, prefetch]
  exact h.foldl_prefetchChunk_eq c b now (fun chunk hc => length_of_mem_chunks hc) _

theorem Fits.step_eq {s : Session Service} (h : s.Fits) (ev : Event) :
    s.step (c.source (Service.transport b now)) ev = s.step Service.source ev := by
  cases ev with
  | retrieve e => rw [step, step, h.retrieve_eq c b now e]
  | prefetch ps => rw [step, step, h.prefetch_eq c b now ps]
  | resize n => rfl
  | change ch => rfl

/-- No event of a run changes what the service takes or lets a chunk grow beyond it. -/
theorem Fits.fits_step {s : Session Service} (h : s.Fits) {ev : Event}
    (hev : ev.Within s.world.maxBatchSize) :
    (s.step Service.source ev).2.Fits ∧
      (s.step Service.source ev).2.world.maxBatchSize = s.world.maxBatchSize := by
  obtain ⟨hlt, hle⟩ := h
  cases ev with
  | retrieve e =>
    obtain ⟨cache, hs⟩ := s.exists_retrieve_local e
    rw [step, hs]
    exact ⟨⟨hlt, hle⟩, rfl⟩
  | prefetch ps =>
    obtain ⟨cache, hs⟩ := s.exists_prefetch_local ps
    rw [step, hs]
    exact ⟨⟨hlt, hle⟩, rfl⟩
  | resize n =>
    -- a size of zero counts as one, which the service takes as it takes the size before
    have hpos := s.batchSize_pos
    have hn : n ≤ s.world.maxBatchSize := hev
    have hsize : max n 1 ≤ s.world.maxBatchSize := by omega
    exact ⟨⟨hlt, hsize⟩, rfl⟩
  | change ch =>
    have hmax := s.world.maxBatchSize_apply ch
    exact ⟨⟨hmax ▸ hlt, hmax ▸ hle⟩, hmax⟩

theorem Fits.run_eq {s : Session Service} (h : s.Fits) {evs : List Event}
    (hevs : ∀ ev ∈ evs, ev.Within s.world.maxBatchSize) :
    s.run (c.source (Service.transport b now)) evs = s.run Service.source evs := by
  induction evs generalizing s with
  | nil => rfl
  | cons ev evs ih =>
    obtain ⟨hfits, hmax⟩ := h.fits_step (hevs ev (List.mem_cons_self ..))
    have hrest : ∀ ev' ∈ evs, ev'.Within (s.step Service.source ev).2.world.maxBatchSize := by
      intro ev' hev'
      rw [hmax]
      exact hevs ev' (List.mem_cons_of_mem ev hev')
    simp only [run, h.step_eq c b now ev, ih hfits hrest]

end Session

/-- **A service over HTTP answers like one in the same program.**  A batch that the service takes
brings exactly the items of the service in the same program; a batch that it does not take brings a
refusal with the reason in its body.  So a session whose chunks the service takes goes through every
run, whatever happens to the service in between, with the same answers, the same reports and the
same cache. -/
theorem HttpClient.transport_agrees (c : HttpClient) (b : BodyReader) (now : Time.Instant) :
    (∀ (s : Service) (ps : List PolicyRef), s.maxBatchSize < 0x10000000000000000 →
      1 ≤ ps.length → ps.length ≤ s.maxBatchSize →
        ∃ items, (c.source (Service.transport b now)).fetch s ps = (.ok items, s) ∧
          Service.source.fetch s ps = (.ok items, s)) ∧
    (∀ (s : Service) (ps : List PolicyRef), ps.length = 0 →
      (c.source (Service.transport b now)).fetch s ps =
        (.error (.refused HttpClient.endpoint 400 (ErrorBody.codec.encode
          ⟨"VALIDATION_ERROR", InputError.emptyBatch.message⟩)), s)) ∧
    (∀ (s : Service) (ps : List PolicyRef), 1 ≤ ps.length → s.maxBatchSize < ps.length →
      (c.source (Service.transport b now)).fetch s ps =
        (.error (.refused HttpClient.endpoint 400 (ErrorBody.codec.encode
          ⟨"VALIDATION_ERROR",
            (InputError.batchTooLarge ps.length s.maxBatchSize).message⟩)), s)) ∧
    ∀ (s : Session Service) (evs : List Session.Event),
      s.world.maxBatchSize < 0x10000000000000000 → s.batchSize ≤ s.world.maxBatchSize →
      (∀ ev ∈ evs, ev.Within s.world.maxBatchSize) →
        s.run (c.source (Service.transport b now)) evs = s.run Service.source evs := by
  refine ⟨?_, ?_, ?_, ?_⟩
  · intro s ps hmax hpos hle
    exact ⟨_, HttpClient.fetch_transport_of_fits b c now hmax hpos hle, rfl⟩
  · intro s ps hzero
    apply HttpClient.fetch_transport_of_error
    rw [checkBatchLength, if_pos hzero]
  · intro s ps hpos hlt
    apply HttpClient.fetch_transport_of_error
    rw [checkBatchLength, if_neg (by omega), if_pos hlt]
  · intro s evs hmax hle hevs
    exact Session.Fits.run_eq c b now ⟨hmax, hle⟩ hevs

/-- A client of a service on its own machine. -/
def HttpClient.localhost : HttpClient where
  baseUrl := ⟨"http", some { host := "localhost" }, "/", none, none⟩
  authorization := none
  retry := ⟨3, 200⟩

/-- Batches of one, no and too many policies, and a session that retrieves a rule before and after
it is fetched again, where the service has forgotten the rule in the meantime. -/
theorem HttpClient.transport_agrees_sample :
    let s := Service.sample
    let far := localhost.source (Service.transport .terse .latest)
    let evs : List Session.Event := [.prefetch [.sample], .change (.replaceScope []),
      .retrieve .sample, .prefetch [.sample], .retrieve .sample]
    far.fetch s [.sample] =
        (.ok [⟨0, PolicyRef.sample.rule, some (.mapped .sample), none⟩], s) ∧
    far.fetch s [] =
      (.error (.refused endpoint 400 (ErrorBody.codec.encode
        ⟨"VALIDATION_ERROR", InputError.emptyBatch.message⟩)), s) ∧
    far.fetch { s with maxBatchSize := 1 } [.sample, .sample] =
      (.error (.refused endpoint 400 (ErrorBody.codec.encode
        ⟨"VALIDATION_ERROR", (InputError.batchTooLarge 2 1).message⟩)),
          { s with maxBatchSize := 1 }) ∧
    (Session.fresh s 20).run far evs = (Session.fresh s 20).run Service.source evs ∧
    ((Session.fresh s 20).run far evs).1 =
      [.prefetched ⟨1, 1, 1, 0, 1⟩, .nothing, .retrieved (.ok ⟨.sample, .mapped, .compliant⟩),
        .prefetched ⟨1, 1, 1, 0, 1⟩,
        .retrieved (.ok ((Resolution.unmapped PolicyRef.sample.rule).enrich .compliant))] := by
  intro s far evs
  obtain ⟨hfits, hempty, hlarge, hrun⟩ := HttpClient.transport_agrees localhost .terse .latest
  obtain ⟨items, hfar, hnear⟩ := hfits s [.sample] (by decide) (by decide) (by decide)
  have hitems : s.resolveItems [.sample] =
      [⟨0, PolicyRef.sample.rule, some (.mapped .sample), none⟩] := by decide +kernel
  obtain rfl : s.resolveItems [.sample] = items := Except.ok.inj (congrArg Prod.fst hnear)
  rw [hitems] at hfar
  have hsame := hrun (Session.fresh s 20) evs (by decide) (by decide)
    (by simp [evs, Session.Event.Within])
  refine ⟨hfar, hempty _ [] rfl, ?_, hsame, ?_⟩
  · exact hlarge { s with maxBatchSize := 1 } [.sample, .sample] (by decide) (by decide)
  · rw [hsame]
    decide +kernel

end Compliance
