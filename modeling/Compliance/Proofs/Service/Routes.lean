import Compliance.Proofs.Wire
import Compliance.Service.Routes
import Mathlib.Data.List.TakeWhile

/-!
# Questions to the service

A question comes as the body of a request to its route.  A client that writes the question with the
route's codec is understood, and a question that is understood is answered in JSON.

* `BodyReader.read_toUTF8` : how a body is read that is text.
* `Request.post`, `Request.path_post`, `Request.read_post` : the request that carries a question,
  and what the service reads in it.
* `Route` : the three routes, with their questions and answers.
* `Route.respond_eq` : what is done on each of them.
* `Service.respond_metadata`, `Service.respond_batch`, `Service.respond_enrich` : the answers on the
  three routes, whoever has written the request.
-/

namespace Compliance

theorem fromUTF8?_toUTF8 (s : String) : String.fromUTF8? s.toUTF8 = some s := by
  rw [String.toUTF8_eq_toByteArray, String.fromUTF8?, dif_pos s.isValidUTF8]
  rfl

/-- **A body that is text is read by the codec of what it should be.** -/
theorem BodyReader.read_toUTF8 (b : BodyReader) (now : Time.Instant) (t : WireType)
    (text : String) : b.read now t text.toUTF8 =
      ((t.codec now).decodeFront text).mapError (b.wording t text) := by
  rw [read, BodyReader.text, fromUTF8?_toUTF8]

theorem BodyReader.read_encode (b : BodyReader) (now : Time.Instant) {t : WireType} {a : t.Value}
    (h : (t.codec now).ReadsBack Json.maxDepth a) :
    b.read now t ((t.codec now).encode a).toUTF8 = .ok a := by
  rw [read_toUTF8, h.decodeFront_encode]
  rfl

/-- The request that carries a JSON body to a target. -/
def Request.post (target body : String) : Request :=
  ⟨"POST", target, some "application/json", body.toUTF8⟩

theorem Request.path_post {target : String}
    (h : (target.toList.all fun c => c != '?' && c != '#') = true) (body : String) :
    (Request.post target body).path = target := by
  rw [path, post, List.takeWhile_eq_self_iff.mpr (List.all_eq_true.mp h), String.ofList_toList]

theorem Request.read_post (b : BodyReader) (now : Time.Instant) {t : WireType} {a : t.Value}
    (h : (t.codec now).ReadsBack Json.maxDepth a) (target : String) :
    (Request.post target ((t.codec now).encode a)).read b now t = .ok a := by
  have hjson : Net.isJsonContentType "application/json" = true := by decide
  simp only [read, post, if_pos hjson, BodyReader.read_encode b now h]
  rfl

/-! ### Routes -/

/-- The routes that take questions. -/
inductive Route where
  | metadata
  | batch
  | enrich
  deriving DecidableEq, Repr

namespace Route

/-- The path of a route. -/
def path : Route → String
  | metadata => "/v1/metadata"
  | batch => "/v1/metadata/batch"
  | enrich => "/v1/enrich"

/-- What a route is asked. -/
def question : Route → WireType
  | metadata => .metadataRequest
  | batch => .batchRequest
  | enrich => .enrichRequest

/-- What a route answers. -/
def answer : Route → WireType
  | metadata => .metadataResponse
  | batch => .batchAnswer
  | enrich => .enrichResponse

/-- The answer of a service to a question. -/
def answered (s : Service) : (r : Route) → r.question.Value → Except InputError r.answer.Value
  | metadata, p => .ok (s.resolve p)
  | batch, ps => s.answerBatch ps
  | enrich, e => .ok (s.enrich e)

end Route

theorem Service.onMethod_of_eq {req : Request} {method : String} (h : req.method = method)
    (reply : Reply) : onMethod method req reply = reply := by
  rw [onMethod, if_pos (beq_iff_eq.mpr h)]

theorem Service.ask_of_read {b : BodyReader} {now : Time.Instant} {req : Request}
    {question : WireType} {q : question.Value} (h : req.read b now question = .ok q)
    (answer : WireType) (f : question.Value → Except InputError answer.Value) :
    ask b now req question answer f =
      match f q with
      | .error e => .refusal (.invalid e)
      | .ok a => .json 200 (answer.codec now) a := by
  cases hf : f q <;> simp only [ask, h, hf]

/-- **On every route the same is done**: the body is read, and the question answered. -/
theorem Route.respond_eq {r : Route} {req : Request} (s : Service) (b : BodyReader)
    (now : Time.Instant) (hpath : req.path = r.path) (hmethod : req.method = "POST") :
    s.respond b now req = Service.ask b now req r.question r.answer (r.answered s) := by
  cases r <;> rw [Service.respond, hpath] <;> exact Service.onMethod_of_eq hmethod _

namespace Service

variable (s : Service) (b : BodyReader) (now : Time.Instant) {req : Request}

theorem respond_metadata {p : PolicyRef} (hpath : req.path = "/v1/metadata")
    (hmethod : req.method = "POST") (hread : req.read b now .metadataRequest = .ok p) :
    s.respond b now req = .json 200 Wire.metadataResponse (s.resolve p) :=
  (Route.respond_eq (r := .metadata) s b now hpath hmethod).trans (ask_of_read hread _ _)

/-- The service answers a batch that it takes, and refuses any other. -/
theorem respond_batch {ps : List PolicyRef} (hpath : req.path = "/v1/metadata/batch")
    (hmethod : req.method = "POST") (hread : req.read b now .batchRequest = .ok ps) :
    s.respond b now req =
      match s.answerBatch ps with
      | .error e => .refusal (.invalid e)
      | .ok answer => .json 200 BatchAnswer.codec answer := by
  refine (Route.respond_eq (r := .batch) s b now hpath hmethod).trans ?_
  refine (ask_of_read hread _ _).trans ?_
  have hanswered : Route.answered s .batch ps = s.answerBatch ps := rfl
  rw [hanswered]
  cases s.answerBatch ps <;> rfl

theorem respond_enrich {e : Evidence} (hpath : req.path = "/v1/enrich")
    (hmethod : req.method = "POST") (hread : req.read b now .enrichRequest = .ok e) :
    s.respond b now req = .json 200 Wire.enrichResponse (s.enrich e) :=
  (Route.respond_eq (r := .enrich) s b now hpath hmethod).trans (ask_of_read hread _ _)

end Service

end Compliance
