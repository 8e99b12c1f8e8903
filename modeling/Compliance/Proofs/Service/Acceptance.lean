import Compliance.Proofs.Codec.Alike
import Compliance.Proofs.Service.Batch
import Compliance.Proofs.WireType

/-!
# Which requests are taken

A request to one of the three routes that take questions can go wrong in three ways, and they are
tried in this order: its content type is not that of JSON, its body is not a question of the route,
or the question is a batch of a length that is not allowed.  Anything else is answered.  A refusal
is JSON too, whatever it quotes of what the reader says, and what the service knows has no part in
it.  All of this holds for any reader of bodies.

* `Request.IsJson`, `Net.MediaType.isJson_iff` : content types that pass for JSON, and which of them
  are called so.
* `BodyReader.read_alike` : whether a body can be read does not depend on when.
* `Route.respond_of_read` : the reply to a question that has been read, on any route.
* `Route.Accepts`, `Route.Misfits` : requests that are taken, and those that are read for nothing.
* `Service.acceptance` : every request to every route.
* `Service.subtype_suffices` : a content type that is taken for JSON by the part before its suffix.
-/

namespace Compliance

/-! ### Content types -/

namespace Net

namespace MediaType

/-- The type is called JSON, either by its plain name or by its suffix. -/
def NamesJson (m : MediaType) : Prop :=
  m.type = "application" ∧ (m.subtype = "json" ∧ m.suffix = none ∨ m.suffix = some "json")

/-- Content passes for JSON if its type is called so, or if it would be without its suffix. -/
theorem isJson_iff {m : MediaType} :
    m.isJson = true ↔ m.type = "application" ∧ (m.subtype = "json" ∨ m.suffix = some "json") := by
  simp only [isJson, Bool.and_eq_true, Bool.or_eq_true, beq_iff_eq]

theorem NamesJson.isJson {m : MediaType} (h : m.NamesJson) : m.isJson = true := by
  obtain ⟨htype, ⟨hsubtype, -⟩ | hsuffix⟩ := h
  · exact isJson_iff.mpr ⟨htype, .inl hsubtype⟩
  · exact isJson_iff.mpr ⟨htype, .inr hsuffix⟩

theorem read?_words {type subtype : List Char} (hne : type ≠ []) (htype : ∀ c ∈ type, isToken c)
    (hsubtype : ∀ c ∈ subtype, isToken c) :
    read? (String.ofList (type ++ '/' :: subtype)) = some (ofWords type subtype) := by
  have hslash : isToken '/' = false := by decide
  have hfirst : (type ++ '/' :: subtype).takeWhile isToken = type := by
    rw [List.takeWhile_append_of_pos htype, List.takeWhile_cons_of_neg (by simp [hslash]),
      List.append_nil]
  have hsecond : subtype.takeWhile isToken = subtype := List.takeWhile_eq_self_iff.mpr hsubtype
  have hempty : type.isEmpty = false := by simpa using hne
  simp only [read?, String.toList_ofList, hfirst, List.drop_left, hsecond, List.drop_length, hempty]
  rfl

theorem ofWords_suffix (type : List Char) {w : List Char} (hne : w ≠ []) :
    ofWords type (w ++ ['+', 'j', 's', 'o', 'n']) = ⟨lower type, lower w, some "json"⟩ := by
  obtain ⟨c, w, rfl⟩ := List.exists_cons_of_ne_nil hne
  have hsuffix : ((c :: w ++ ['+', 'j', 's', 'o', 'n']).drop 1).reverse.takeWhile (· != '+') =
      ['n', 'o', 's', 'j'] := by
    rw [List.cons_append, List.drop_succ_cons, List.drop_zero, List.reverse_append]
    rfl
  have hlt : ['n', 'o', 's', 'j'].length <
      ((c :: w ++ ['+', 'j', 's', 'o', 'n']).drop 1).length := by
    simp
  have htake : (c :: w ++ ['+', 'j', 's', 'o', 'n']).length - ['n', 'o', 's', 'j'].length - 1 =
      (c :: w).length := by
    simp
  simp only [ofWords, hsuffix, if_pos hlt, htake, List.take_left]
  rfl

end MediaType

theorem isJsonContentType_iff {t : String} :
    isJsonContentType t = true ↔ ∃ m, MediaType.read? t = some m ∧ m.isJson = true := by
  rw [isJsonContentType]
  cases MediaType.read? t <;> simp

/-- **What is called JSON by its suffix is JSON**, whatever word stands before the suffix. -/
theorem isJsonContentType_suffix {w : List Char} (hne : w ≠ [])
    (htoken : ∀ c ∈ w, MediaType.isToken c) :
    isJsonContentType (String.ofList
      ("application".toList ++ '/' :: (w ++ ['+', 'j', 's', 'o', 'n']))) = true := by
  have hsuffix : ∀ c ∈ w ++ ['+', 'j', 's', 'o', 'n'], MediaType.isToken c := by
    intro c hc
    rcases List.mem_append.mp hc with hc | hc
    · exact htoken c hc
    · exact List.all_eq_true.mp (rfl : ['+', 'j', 's', 'o', 'n'].all MediaType.isToken = true) c hc
  have htype : ∀ c ∈ "application".toList, MediaType.isToken c :=
    List.all_eq_true.mp (rfl : "application".toList.all MediaType.isToken = true)
  have hread := MediaType.read?_words (by decide) htype hsuffix
  rw [MediaType.ofWords_suffix _ hne] at hread
  exact isJsonContentType_iff.mpr ⟨_, hread, by simp [MediaType.isJson]; decide⟩

end Net

open Codec (Alike ReadsAlike readsBack_string)
open Codec.Fields (Matches)

/-- The content type of a request is that of JSON. -/
def Request.IsJson (req : Request) : Prop :=
  ∃ t m, req.contentType = some t ∧ Net.MediaType.read? t = some m ∧
    m.type = "application" ∧ (m.subtype = "json" ∨ m.suffix = some "json")

namespace Request

variable {req : Request} (b : BodyReader) (now : Time.Instant) (t : WireType)

theorem isJson_iff :
    req.IsJson ↔ ∃ t, req.contentType = some t ∧ Net.isJsonContentType t = true := by
  simp only [IsJson, Net.isJsonContentType_iff, Net.MediaType.isJson_iff]
  constructor
  · rintro ⟨t, m, ht, hm, hjson⟩
    exact ⟨t, ht, m, hm, hjson⟩
  · rintro ⟨t, ht, m, hm, hjson⟩
    exact ⟨t, m, ht, hm, hjson⟩

theorem read_of_isJson (h : req.IsJson) :
    req.read b now t = (b.read now t req.body).mapError .unreadable := by
  obtain ⟨type, htype, hjson⟩ := isJson_iff.mp h
  rw [read, htype]
  exact if_pos hjson

/-- The body of a request that is not JSON is not looked at. -/
theorem read_of_not_isJson (h : ¬ req.IsJson) : req.read b now t = .error .notJson := by
  rw [read]
  cases htype : req.contentType with
  | none => rfl
  | some type =>
    refine if_neg fun hjson => h ?_
    exact isJson_iff.mpr ⟨type, htype, hjson⟩

end Request

/-! ### Refusals -/

theorem RequestError.code_eq_iff (e : RequestError) :
    e.code = "BAD_REQUEST" ↔ ¬ e.code = "VALIDATION_ERROR" := by
  cases e <;> simp [code]

/-- **A refusal is read back**, whatever its message quotes. -/
theorem ErrorBody.readsBack (depth : Nat) (e : ErrorBody) :
    ErrorBody.codec.ReadsBack (depth + 2) e := by
  refine Codec.ReadsBack.member ?_ "error"
  refine Codec.ReadsBack.map (Codec.Fields.Readable.readsBack ?_ (by decide)) rfl
  exact ⟨readsBack_string _ e.code, readsBack_string _ e.message, trivial⟩

theorem Reply.decode_refusal (e : RequestError) :
    ErrorBody.codec.decode (Reply.refusal e).body = .ok ⟨e.code, e.message⟩ :=
  (ErrorBody.readsBack 125 ⟨e.code, e.message⟩).decode_encode

/-! ### Questions and times -/

theorem Codec.ReadsAlike.member {α : Type} {c c' : Codec α} (name : String)
    (h : c.ReadsAlike c') : (Codec.member name c).ReadsAlike (Codec.member name c') :=
  .map (Matches.readsAlike (.cons name _ h rfl .nil)) _ _

theorem Evidence.readsAlike (now later : Time.Instant) :
    (Evidence.codec now).ReadsAlike (Evidence.codec later) := by
  refine ReadsAlike.map (Matches.readsAlike ?_) _ _
  refine .cons _ _ (.refl _) rfl (.cons _ _ (.refl _) rfl ?_)
  exact .cons _ _ (.refl _) rfl .nil

theorem WireType.readsAlike (now later : Time.Instant) (t : WireType) :
    (t.codec now).ReadsAlike (t.codec later) := by
  cases t with
  | evidence => exact Evidence.readsAlike now later
  | enrichRequest => exact (Evidence.readsAlike now later).member "evidence"
  | _ => exact .refl _

/-- **Whether a body can be read does not depend on when**, nor does what is said about it. -/
theorem BodyReader.read_alike (b : BodyReader) (now later : Time.Instant) (t : WireType)
    (body : ByteArray) : Alike (fun _ _ => True) (b.read now t body) (b.read later t body) := by
  rw [read, read]
  cases b.text t body with
  | ok text => exact ((t.readsAlike now later).decodeFront text).mapError _
  | error said => exact .error said

theorem BodyReader.read_eq_error {b : BodyReader} {now : Time.Instant} {t : WireType}
    {body : ByteArray} {said : String} (h : b.read now t body = .error said)
    (later : Time.Instant) : b.read later t body = .error said := by
  have halike := b.read_alike now later t body
  rw [h] at halike
  generalize b.read later t body = x at halike ⊢
  cases halike
  rfl

/-! ### Questions that may be asked -/

namespace Route

/-- A batch has to be of an allowed length; any other question is answered. -/
def Takes (max : Nat) : (r : Route) → r.question.Value → Prop
  | batch, ps => 1 ≤ ps.length ∧ ps.length ≤ max
  | metadata, _ | enrich, _ => True

variable {s : Service} {r : Route} {q : r.question.Value}

/-- A question is answered or refused by its length, not by what the service knows. -/
theorem answered_cases (s : Service) (q : r.question.Value) :
    (r.Takes s.maxBatchSize q ∧ ∃ a, r.answered s q = .ok a) ∨
      (¬ r.Takes s.maxBatchSize q ∧ ∃ e, ∀ s' : Service, s'.maxBatchSize = s.maxBatchSize →
        r.answered s' q = .error e) := by
  cases r with
  | metadata => exact .inl ⟨trivial, _, rfl⟩
  | enrich => exact .inl ⟨trivial, _, rfl⟩
  | batch =>
    cases hcheck : checkBatchLength q.length s.maxBatchSize with
    | ok _ =>
      have hfits := (checkBatchLength_eq_ok_iff _ _).mp hcheck
      exact .inl ⟨hfits, _, s.answerBatch_of_fits hfits.1 hfits.2⟩
    | error e =>
      refine .inr ⟨fun hfits => ?_, e, fun s' hmax => ?_⟩
      · have hok := (checkBatchLength_eq_ok_iff _ _).mpr hfits
        rw [hcheck] at hok
        cases hok
      · exact s'.answerBatch_of_error (hmax ▸ hcheck)

/-- **Every answer can be read**, if the lengths of batches fit into 64 bits. -/
theorem wellFormed_of_answered (hmax : s.maxBatchSize < 0x10000000000000000)
    {a : r.answer.Value} (h : r.answered s q = .ok a) : r.answer.WellFormed a := by
  refine ⟨fun _ => WireType.trimmed_of_mem_identifiers, ?_⟩
  intro n hn
  cases r with
  | metadata => cases hn
  | enrich => cases hn
  | batch =>
    change List PolicyRef at q
    change s.answerBatch q = .ok a at h
    cases hcheck : checkBatchLength q.length s.maxBatchSize with
    | error e =>
      rw [s.answerBatch_of_error hcheck] at h
      cases h
    | ok _ =>
      obtain ⟨hpos, hle⟩ := (checkBatchLength_eq_ok_iff _ _).mp hcheck
      rw [s.answerBatch_of_fits hpos hle] at h
      obtain rfl := Except.ok.inj h
      -- the indices are places in the batch, and the counts are its length or nothing
      rcases List.mem_append.mp hn with hn | hn
      · obtain ⟨item, hitem, rfl⟩ := List.mem_map.mp hn
        obtain ⟨i, hi, rfl⟩ := List.mem_mapIdx.mp hitem
        exact Nat.lt_of_lt_of_le hi (by omega)
      · simp only [BatchSummary.counts, List.mem_cons, List.not_mem_nil, or_false] at hn
        omega

/-! ### Replies -/

variable {req : Request} {b : BodyReader} {now : Time.Instant}

theorem respond_of_not_isJson (s : Service) (b : BodyReader) (now : Time.Instant)
    (hpath : req.path = r.path) (hmethod : req.method = "POST") (h : ¬ req.IsJson) :
    s.respond b now req = .refusal .notJson := by
  rw [respond_eq s b now hpath hmethod, Service.ask, Request.read_of_not_isJson b now _ h]

theorem respond_of_unreadable (s : Service) (hpath : req.path = r.path)
    (hmethod : req.method = "POST") (h : req.IsJson) {said : String}
    (hread : b.read now r.question req.body = .error said) :
    s.respond b now req = .refusal (.unreadable said) := by
  rw [respond_eq s b now hpath hmethod, Service.ask, Request.read_of_isJson b now _ h, hread]
  rfl

theorem respond_of_read (s : Service) (hpath : req.path = r.path)
    (hmethod : req.method = "POST") (h : req.IsJson)
    (hread : b.read now r.question req.body = .ok q) :
    s.respond b now req =
      match r.answered s q with
      | .error e => .refusal (.invalid e)
      | .ok a => .json 200 (r.answer.codec now) a := by
  have hq : req.read b now r.question = .ok q := by
    rw [Request.read_of_isJson b now _ h, hread]
    rfl
  rw [respond_eq s b now hpath hmethod, Service.ask_of_read hq]
  cases r.answered s q <;> rfl

/-! ### What is taken -/

/-- A request is taken if it is JSON, brings a question of the route, and this may be asked. -/
def Accepts (r : Route) (max : Nat) (b : BodyReader) (now : Time.Instant) (req : Request) : Prop :=
  req.IsJson ∧ ∃ q, b.read now r.question req.body = .ok q ∧ r.Takes max q

/-- A request is read for nothing if it brings a question that may not be asked. -/
def Misfits (r : Route) (max : Nat) (b : BodyReader) (now : Time.Instant) (req : Request) : Prop :=
  req.IsJson ∧ ∃ q, b.read now r.question req.body = .ok q ∧ ¬ r.Takes max q

/-- A request that is posted to a route with the content of another. -/
structure Reposts (r : Route) (req req' : Request) : Prop where
  path : req'.path = r.path
  method : req'.method = "POST"
  contentType : req'.contentType = req.contentType
  body : req'.body = req.body

theorem Reposts.isJson_iff {req' : Request} (h : r.Reposts req req') :
    req'.IsJson ↔ req.IsJson := by
  rw [Request.IsJson, Request.IsJson, h.contentType]

/-- Only evidence is read by the time, and it is not refused once it has been read. -/
theorem read_eq_of_not_takes {max : Nat} (h : ¬ r.Takes max q) (b : BodyReader)
    (now later : Time.Instant) (body : ByteArray) :
    b.read now r.question body = b.read later r.question body := by
  cases r with
  | metadata => exact absurd trivial h
  | batch => rfl
  | enrich => exact absurd trivial h

/-- What a refusal is for: content that is not JSON, a body that cannot be read with what its reader
says, or a question that may not be asked. -/
def RefusedFor (r : Route) (max : Nat) (b : BodyReader) (now : Time.Instant) (req : Request) :
    RequestError → Prop
  | .notJson => ¬ req.IsJson
  | .unreadable said => req.IsJson ∧ b.read now r.question req.body = .error said
  | .invalid _ => r.Misfits max b now req

/-- **What becomes of a request.**  It is taken and answered, or it is refused; and then every
service with the same maximum refuses what is posted with the same content, whenever that is. -/
theorem respond_cases (s : Service) (b : BodyReader) (now : Time.Instant)
    (hpath : req.path = r.path) (hmethod : req.method = "POST") :
    (r.Accepts s.maxBatchSize b now req ∧ ∃ q a, r.answered s q = .ok a ∧
      s.respond b now req = .json 200 (r.answer.codec now) a) ∨
    (¬ r.Accepts s.maxBatchSize b now req ∧ ∃ e : RequestError,
      r.RefusedFor s.maxBatchSize b now req e ∧
      ∀ (s' : Service) (now' : Time.Instant) (req' : Request), s'.maxBatchSize = s.maxBatchSize →
        r.Reposts req req' → s'.respond b now' req' = .refusal e) := by
  by_cases hjson : req.IsJson
  · cases hread : b.read now r.question req.body with
    | error said =>
      refine .inr ⟨?_, .unreadable said, ⟨hjson, hread⟩, ?_⟩
      · rintro ⟨-, q, hq, -⟩
        rw [hread] at hq
        cases hq
      · intro s' now' req' _ h
        have hread' : b.read now' r.question req'.body = .error said :=
          h.body ▸ BodyReader.read_eq_error hread now'
        exact respond_of_unreadable s' h.path h.method (h.isJson_iff.mpr hjson) hread'
    | ok q =>
      have hrespond := respond_of_read s hpath hmethod hjson hread
      rcases answered_cases s q with ⟨htakes, a, ha⟩ | ⟨htakes, e, he⟩
      · rw [ha] at hrespond
        exact .inl ⟨⟨hjson, q, hread, htakes⟩, q, a, ha, hrespond⟩
      · refine .inr ⟨?_, .invalid e, ⟨hjson, q, hread, htakes⟩, ?_⟩
        · rintro ⟨-, q', hq', htakes'⟩
          obtain rfl := Except.ok.inj (hread.symm.trans hq')
          exact htakes htakes'
        · intro s' now' req' hmax h
          rw [← h.body, read_eq_of_not_takes htakes b now now'] at hread
          rw [respond_of_read s' h.path h.method (h.isJson_iff.mpr hjson) hread, he s' hmax]
  · refine .inr ⟨fun h => hjson h.1, .notJson, hjson, ?_⟩
    intro s' now' req' _ h
    exact respond_of_not_isJson s' b now' h.path h.method (h.isJson_iff.not.mpr hjson)

/-- A refusal calls a request invalid exactly if its body has been read. -/
theorem RefusedFor.code_iff {max : Nat} {e : RequestError} (h : r.RefusedFor max b now req e) :
    e.code = "VALIDATION_ERROR" ↔ r.Misfits max b now req := by
  cases e with
  | notJson => exact iff_of_false (by decide) fun hm => h hm.1
  | unreadable said =>
    refine iff_of_false (by simp [RequestError.code]) ?_
    rintro ⟨-, q, hq, -⟩
    cases h.2.symm.trans hq
  | invalid e => exact iff_of_true rfl h

/-- A refusal for a body that cannot be read passes on what the reader says. -/
theorem RefusedFor.message_eq {max : Nat} {e : RequestError} (h : r.RefusedFor max b now req e)
    (hjson : req.IsJson) {said : String} (hread : b.read now r.question req.body = .error said) :
    e.message = "bad request: " ++ said := by
  cases e with
  | notJson => exact absurd hjson h
  | unreadable said' =>
    obtain rfl := Except.error.inj (hread.symm.trans h.2)
    rfl
  | invalid e =>
    obtain ⟨-, q, hq, -⟩ := h
    cases hread.symm.trans hq

end Route

namespace Service

/-- **Which requests are taken.**  A request to a route that takes questions is answered exactly if
its content type is that of JSON, its body is a question of the route and, if this is a batch, the
batch is of an allowed length; the answer is in the route's form.  Any other is refused with a
reason in JSON, which names the request invalid exactly if its body has been read, and bad
otherwise; what the reader says about a body that it cannot read is passed on, whatever it is.
Whether and how a request is refused depends on its content and the longest batch alone, not on
anything else that the service knows, nor on the time. -/
theorem acceptance (s : Service) (hmax : s.maxBatchSize < 0x10000000000000000) (b : BodyReader)
    (now : Time.Instant) (r : Route) {req : Request} (hpath : req.path = r.path)
    (hmethod : req.method = "POST") :
    ((s.respond b now req).status = 200 ↔ r.Accepts s.maxBatchSize b now req) ∧
    (r.Accepts s.maxBatchSize b now req → ∀ later,
      ∃ a, (r.answer.codec later).decode (s.respond b now req).body = .ok a) ∧
    (¬ r.Accepts s.maxBatchSize b now req →
      (s.respond b now req).status = 400 ∧
      ∃ e : ErrorBody, (s.respond b now req).body = ErrorBody.codec.encode e ∧
        ErrorBody.codec.decode (s.respond b now req).body = .ok e ∧
        (e.code = "VALIDATION_ERROR" ↔ r.Misfits s.maxBatchSize b now req) ∧
        (e.code = "BAD_REQUEST" ↔ ¬ r.Misfits s.maxBatchSize b now req) ∧
        (req.IsJson → ∀ said, b.read now r.question req.body = .error said →
          e.message = "bad request: " ++ said)) ∧
    ∀ (s' : Service) (now' : Time.Instant) (req' : Request), s'.maxBatchSize = s.maxBatchSize →
      r.Reposts req req' →
        (s'.respond b now' req').status = (s.respond b now req).status ∧
        (¬ r.Accepts s.maxBatchSize b now req → s'.respond b now' req' = s.respond b now req) := by
  have hself : r.Reposts req req := ⟨hpath, hmethod, rfl, rfl⟩
  rcases Route.respond_cases s b now hpath hmethod with
    ⟨haccepts, q, a, ha, hreply⟩ | ⟨hrefused, e, hfor, hall⟩
  · rw [hreply]
    refine ⟨iff_of_true rfl haccepts, fun _ later => ⟨a, ?_⟩, fun h => absurd haccepts h, ?_⟩
    · have hread := WireType.readsBack later (Route.wellFormed_of_answered hmax ha)
      show (r.answer.codec later).decode ((r.answer.codec now).encode a) = .ok a
      rw [WireType.encode_eq now later]
      exact hread.decode_encode
    · intro s' now' req' hsame h
      refine ⟨?_, fun hn => absurd haccepts hn⟩
      rcases Route.respond_cases s' b now' h.path h.method with
        ⟨-, q', a', -, hreply'⟩ | ⟨-, e', -, hall'⟩
      · rw [hreply']
        rfl
      · -- what another service refuses this one would refuse as well
        have hback : r.Reposts req' req := ⟨hpath, hmethod, h.contentType.symm, h.body.symm⟩
        have hstatus := congrArg Reply.status ((hall' s now req hsame.symm hback).symm.trans hreply)
        cases hstatus
  · have hreply := hall s now req rfl hself
    rw [hreply]
    have hstatus : (Reply.refusal e).status ≠ 200 := (by decide : 400 ≠ 200)
    refine ⟨iff_of_false hstatus hrefused, fun h => absurd h hrefused, fun _ => ⟨rfl, ?_⟩, ?_⟩
    · refine ⟨⟨e.code, e.message⟩, rfl, Reply.decode_refusal e, hfor.code_iff, ?_, ?_⟩
      · rw [← hfor.code_iff]
        exact e.code_eq_iff
      · intro hjson said hread
        exact hfor.message_eq hjson hread
    · intro s' now' req' hsame h
      rw [hall s' now' req' hsame h]
      exact ⟨rfl, fun _ => rfl⟩

/-- A reader that quotes what it cannot read. -/
def quoting : BodyReader where
  wording _ text _ := "cannot read \"" ++ text ++ "\""
  stray _ _ := .error "cannot read \"\\xff\""

/-- A question that is answered, a batch that is too long by one, and two bodies that are no
question: a text, which is quoted, and a byte that is no text. -/
theorem acceptance_sample :
    (Service.sample.respond quoting .latest
      (.post "/v1/metadata" (Wire.metadataRequest.encode .sample))).status = 200 ∧
    (∃ e : ErrorBody, ErrorBody.codec.decode
        ({ Service.sample with maxBatchSize := 1 }.respond quoting .latest
          (.post "/v1/metadata/batch" (Wire.batchRequest.encode [.sample, .sample]))).body = .ok e ∧
      e.code = "VALIDATION_ERROR") ∧
    ErrorBody.codec.decode
        (Service.sample.respond quoting .latest (.post "/v1/enrich" "\"AC-1\"")).body =
      .ok ⟨"BAD_REQUEST", "bad request: " ++ "cannot read \"\"AC-1\"\""⟩ ∧
    ErrorBody.codec.decode
        (Service.sample.respond quoting .latest
          ⟨"POST", "/v1/enrich", some "application/json", ⟨#[0xff]⟩⟩).body =
      .ok ⟨"BAD_REQUEST", "bad request: " ++ "cannot read \"\\xff\""⟩ := by
  have hjson (target : String) (body : ByteArray) :
      (⟨"POST", target, some "application/json", body⟩ : Request).IsJson :=
    Request.isJson_iff.mpr ⟨_, rfl, by decide⟩
  have hquoted {body : ByteArray} {said : String}
      (hread : quoting.read .latest .enrichRequest body = .error said) :
      ErrorBody.codec.decode
          (Service.sample.respond quoting .latest
            ⟨"POST", "/v1/enrich", some "application/json", body⟩).body =
        .ok ⟨"BAD_REQUEST", "bad request: " ++ said⟩ := by
    let req : Request := ⟨"POST", "/v1/enrich", some "application/json", body⟩
    have hpath : req.path = Route.enrich.path := Request.path_post (by decide) ""
    obtain ⟨-, -, hrefused, -⟩ :=
      Service.sample.acceptance (by decide) quoting .latest .enrich hpath rfl
    have hnone : ∀ q, quoting.read .latest Route.enrich.question body ≠ .ok q := by
      intro q hq
      cases hread.symm.trans hq
    obtain ⟨-, ⟨code, message⟩, -, hdecode, -, hcode, hmessage⟩ :=
      hrefused fun ⟨_, q, hq, _⟩ => hnone q hq
    obtain rfl : code = _ := hcode.mpr fun ⟨_, q, hq, _⟩ => hnone q hq
    obtain rfl : message = _ := hmessage (hjson _ _) said hread
    exact hdecode
  refine ⟨?_, ?_, ?_, ?_⟩
  · let req := Request.post "/v1/metadata" (Wire.metadataRequest.encode .sample)
    have hpath : req.path = Route.metadata.path := Request.path_post (by decide) _
    obtain ⟨hstatus, -⟩ := Service.sample.acceptance (by decide) quoting .latest .metadata hpath rfl
    have hread := quoting.read_encode .latest (t := .metadataRequest)
      ((PolicyRef.sample.readsBack 125).member "policy")
    exact hstatus.mpr ⟨hjson _ _, .sample, hread, trivial⟩
  · let s : Service := { Service.sample with maxBatchSize := 1 }
    let req := Request.post "/v1/metadata/batch" (Wire.batchRequest.encode [.sample, .sample])
    have hpath : req.path = Route.batch.path := Request.path_post (by decide) _
    obtain ⟨-, -, hrefused, -⟩ := s.acceptance (by decide) quoting .latest .batch hpath rfl
    have hread := quoting.read_encode .latest (t := .batchRequest)
      (Wire.readsBack_batchRequest 124 [.sample, .sample])
    have hmisfits : Route.batch.Misfits s.maxBatchSize quoting .latest req :=
      ⟨hjson _ _, [.sample, .sample], hread, by simp [Route.Takes, s]⟩
    have hnot : ¬ Route.batch.Accepts s.maxBatchSize quoting .latest req := by
      rintro ⟨-, q, hq, htakes⟩
      obtain rfl := Except.ok.inj (hread.symm.trans hq)
      exact absurd htakes (by simp [Route.Takes, s])
    obtain ⟨-, e, -, hdecode, hcode, -⟩ := hrefused hnot
    exact ⟨e, hdecode, hcode.mpr hmisfits⟩
  · have hread : quoting.read .latest .enrichRequest "\"AC-1\"".toUTF8 =
        .error "cannot read \"\"AC-1\"\"" := by
      rw [BodyReader.read_toUTF8]
      rfl
    exact hquoted hread
  · have hbyte : String.fromUTF8? ⟨#[0xff]⟩ = none := by decide
    exact hquoted (by rw [BodyReader.read, BodyReader.text, hbyte]; rfl)

/-- A question about one policy whose content is called XML, of a kind of JSON. -/
def askedInXml : Request :=
  ⟨"POST", "/v1/metadata", some "application/json+xml",
    (Wire.metadataRequest.encode .sample).toUTF8⟩

/-- **The part before the suffix suffices**: content is taken for JSON if this part says so, though
its type is called neither JSON nor anything with the suffix of JSON. -/
theorem subtype_suffices :
    (Service.sample.respond .terse .latest askedInXml).status = 200 ∧
    Net.MediaType.read? "application/json+xml" = some ⟨"application", "json", some "xml"⟩ ∧
    ¬ ∀ (s : Service) (b : BodyReader) (now : Time.Instant) (r : Route) (req : Request),
      s.maxBatchSize < 0x10000000000000000 → req.path = r.path → req.method = "POST" →
        ((s.respond b now req).status = 200 ↔
          (∃ t m, req.contentType = some t ∧ Net.MediaType.read? t = some m ∧ m.NamesJson) ∧
            ∃ q, b.read now r.question req.body = .ok q ∧ r.Takes s.maxBatchSize q) := by
  have htype : Net.MediaType.read? "application/json+xml" =
      some ⟨"application", "json", some "xml"⟩ := by decide
  have hpath : askedInXml.path = Route.metadata.path := by decide
  have hstatus : (Service.sample.respond .terse .latest askedInXml).status = 200 := by
    have hjson : askedInXml.IsJson := ⟨_, _, rfl, htype, rfl, .inl rfl⟩
    have hread := BodyReader.terse.read_encode .latest (t := .metadataRequest)
      ((PolicyRef.sample.readsBack 125).member "policy")
    rw [Route.respond_of_read (r := .metadata) _ hpath rfl hjson hread]
    rfl
  refine ⟨hstatus, htype, fun h => ?_⟩
  obtain ⟨⟨t, m, ht, hm, hnames⟩, -⟩ :=
    (h Service.sample .terse .latest .metadata askedInXml (by decide) hpath rfl).mp hstatus
  obtain rfl := Option.some.inj ht
  obtain rfl := Option.some.inj (htype.symm.trans hm)
  simp [Net.MediaType.NamesJson] at hnames

end Service

end Compliance
