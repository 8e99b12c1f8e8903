import Compliance.Net.MediaType
import Compliance.Service.State
import Compliance.Wire

/-!
# Requests to the service

The service as a function from requests to replies. A reply depends on the request and on the state,
and no request changes the state. Bodies are bytes; what is made of those that are no text, and what
is said about a body that cannot be read, is given.

* `BodyReader` : the reader of bodies.
* `POST /v1/metadata`, `POST /v1/metadata/batch`, `POST /v1/enrich` : questions with a JSON body.
* `GET /health/liveness`, `GET /health/readiness` : probes.
* `Service.respond` : the reply to a request.
-/

namespace Compliance

open Codec (Failure pathText string count)
open Codec.Fields (required)

/-- A request to the service. -/
structure Request where
  method : String
  /-- The path with the query, if there is one. -/
  target : String
  contentType : Option String
  body : ByteArray

/-- A reply of the service. -/
structure Reply where
  status : Nat
  contentType : Option String
  body : String
  deriving DecidableEq, Repr

/-! ### Bodies -/

/-- What the reader of bodies does beyond the codecs. -/
structure BodyReader where
  /-- What is said about a text that cannot be read. -/
  wording : WireType → String → Failure → String
  /-- What is made of bytes that are no text as a whole: a text in their place, since what is only
  skipped need not be text, or what is said about them. -/
  stray : WireType → ByteArray → Except String String

namespace BodyReader

/-- The text for which a body is taken, or what is said about it. -/
def text (b : BodyReader) (t : WireType) (body : ByteArray) : Except String String :=
  match String.fromUTF8? body with
  | some text => .ok text
  | none => b.stray t body

/-- The value in a body, or what is said about it; evidence without a time was observed `now`. What
follows the value in the body does not count. -/
def read (b : BodyReader) (now : Time.Instant) (t : WireType) (body : ByteArray) :
    Except String t.Value :=
  match b.text t body with
  | .ok text => ((t.codec now).decodeFront text).mapError (b.wording t text)
  | .error said => .error said

/-- A reader that takes nothing but text. It says whether a body is no JSON or not what it should
be, names an identifier that is blank, and goes into no other details. -/
def terse : BodyReader where
  wording _ _ f :=
    match f.fault with
    | .malformed | .truncated => "Failed to parse the request body as JSON"
    | .mismatch => "Failed to deserialize the JSON body into the target type"
    | .blankIdentifier kind =>
      "Failed to deserialize the JSON body into the target type: " ++ pathText f.path ++ ": " ++
        (InputError.blankIdentifier kind).message
  stray _ _ := .error "Failed to parse the request body as JSON"

end BodyReader

/-! ### Errors -/

/-- Why a request is refused. -/
inductive RequestError where
  /-- The content type is missing or not that of JSON. -/
  | notJson
  /-- The body cannot be read as what the route asks for, with what its reader says. -/
  | unreadable (text : String)
  /-- The body was read but is not acceptable. -/
  | invalid (e : InputError)
  deriving DecidableEq

namespace RequestError

/-- The code of an error. -/
def code : RequestError → String
  | notJson | unreadable _ => "BAD_REQUEST"
  | invalid _ => "VALIDATION_ERROR"

/-- The text that a user is shown. -/
def message : RequestError → String
  | notJson => "bad request: Expected request with `Content-Type: application/json`"
  | unreadable text => "bad request: " ++ text
  | invalid e => e.message

end RequestError

/-- The body of a refusal. -/
structure ErrorBody where
  code : String
  message : String
  deriving DecidableEq, Repr

/-- A refusal stands alone in an object. -/
def ErrorBody.codec : Codec ErrorBody :=
  .member "error" <|
    (required "code" string <| required "message" string .nil).codec.map
      (fun (code, message, _) => ⟨code, message⟩)
      (fun e => (e.code, e.message, ()))

/-! ### Readiness -/

/-- What the service says about its state. -/
structure Readiness where
  status : String
  version : String
  catalogs : Nat
  planVersion : Nat
  resolvers : Nat
  deriving DecidableEq, Repr

/-- Readiness is reported in words with underscores. -/
def Readiness.codec : Codec Readiness :=
  (required "status" string <|
    required "version" string <|
    required "catalogs" count <|
    required "plan_version" count <|
    required "resolvers" count .nil).codec.map
    (fun (status, version, catalogs, planVersion, resolvers, _) =>
      ⟨status, version, catalogs, planVersion, resolvers⟩)
    (fun r => (r.status, r.version, r.catalogs, r.planVersion, r.resolvers, ()))

namespace Reply

/-- A reply in JSON. -/
def json {α : Type} (status : Nat) (c : Codec α) (a : α) : Reply :=
  ⟨status, some "application/json", c.encode a⟩

/-- A reply without content. -/
def empty (status : Nat) : Reply := ⟨status, none, ""⟩

/-- The reply that refuses a request. -/
def refusal (e : RequestError) : Reply :=
  json 400 ErrorBody.codec ⟨e.code, e.message⟩

end Reply

/-- The value in the body of a request. -/
def Request.read (b : BodyReader) (now : Time.Instant) (r : Request) (t : WireType) :
    Except RequestError t.Value :=
  match r.contentType with
  | some type =>
    if Net.isJsonContentType type then (b.read now t r.body).mapError .unreadable
    else .error .notJson
  | none => .error .notJson

/-- The path of a request. -/
def Request.path (r : Request) : String :=
  String.ofList (r.target.toList.takeWhile fun c => c != '?' && c != '#')

namespace Service

/-- The version of the service. -/
def version : String := "1.0.0"

/-- What the service says about its state. -/
def readiness (s : Service) : Readiness :=
  { status := "ready", version, catalogs := s.scope.size, planVersion := s.plans.version
    resolvers := s.resolvers.size }

section

variable (b : BodyReader) (now : Time.Instant)

/-- The reply to a question: its body is read, and answered in JSON. -/
def ask (r : Request) (question answer : WireType)
    (f : question.Value → Except InputError answer.Value) : Reply :=
  match r.read b now question with
  | .error e => .refusal e
  | .ok q =>
    match f q with
    | .error e => .refusal (.invalid e)
    | .ok a => .json 200 (answer.codec now) a

/-- The reply to a question about one policy. -/
def askMetadata (s : Service) (r : Request) : Reply :=
  ask b now r .metadataRequest .metadataResponse fun p => .ok (s.resolve p)

/-- The reply to a question about several policies. -/
def askBatch (s : Service) (r : Request) : Reply :=
  ask b now r .batchRequest .batchAnswer s.answerBatch

/-- The reply to a question about evidence. -/
def askEnrichment (s : Service) (r : Request) : Reply :=
  ask b now r .enrichRequest .enrichResponse fun e => .ok (s.enrich e)

end

/-- The reply on a route that takes one method. -/
def onMethod (method : String) (r : Request) (reply : Reply) : Reply :=
  if r.method == method then reply
  else if method == "GET" && r.method == "HEAD" then { reply with body := "" }
  else .empty 405

/-- The reply to a request. -/
def respond (s : Service) (b : BodyReader) (now : Time.Instant) (r : Request) : Reply :=
  match r.path with
  | "/v1/metadata" => onMethod "POST" r (s.askMetadata b now r)
  | "/v1/metadata/batch" => onMethod "POST" r (s.askBatch b now r)
  | "/v1/enrich" => onMethod "POST" r (s.askEnrichment b now r)
  | "/health/liveness" => onMethod "GET" r ⟨200, some "text/plain; charset=utf-8", "ok"⟩
  | "/health/readiness" => onMethod "GET" r (.json 200 Readiness.codec s.readiness)
  | _ => .empty 404

end Service

end Compliance
