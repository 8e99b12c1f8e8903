import Compliance.Client.Config
import Compliance.Client.Session
import Compliance.Wire

/-!
# Metadata over HTTP

The source that asks a metadata service. A request that gets no response is sent again, after waits
that double each time; a response of any kind ends the attempts.

* `Transport` : what carries requests, as a machine.
* `HttpClient` : a service's address, a token and how patiently it is asked.
* `HttpClient.source` : the source.
-/

namespace Compliance

/-- A request to a metadata service. -/
structure HttpRequest where
  url : String
  /-- The credentials that are sent with it. -/
  authorization : Option String
  body : String
  deriving DecidableEq, Repr

/-- What comes back for a request. -/
inductive Delivery where
  /-- No response. -/
  | failure
  | response (status : Nat) (body : String)
  deriving DecidableEq, Repr

/-- What carries requests, with states `τ`. -/
structure Transport (τ : Type) where
  send : τ → HttpRequest → Delivery × τ
  /-- Waits so many nanoseconds. -/
  wait : τ → Nat → τ

/-! ### Retries -/

/-- The longest time there is, in nanoseconds. -/
def maxWait : Nat := 0x10000000000000000 * 1000000000 - 1

/-- How often a request is sent again, and how long the first wait is, in nanoseconds. -/
structure RetryPolicy where
  maxRetries : Nat
  baseDelay : Nat
  deriving DecidableEq, Repr

namespace RetryPolicy

/-- By how much the first wait is multiplied before a retry, counted from zero. -/
def factor (retry : Nat) : Nat :=
  if retry < 32 then Nat.pow 2 retry else 0xffffffff

/-- The wait before a retry, counted from zero. -/
def delay (p : RetryPolicy) (retry : Nat) : Nat :=
  min (p.baseDelay * factor retry) maxWait

/-- Sends a request until it gets a response or so many more retries are used up. -/
def sendFrom {τ : Type} (p : RetryPolicy) (t : Transport τ) (r : HttpRequest) :
    Nat → τ → Delivery × τ
  | 0, s => t.send s r
  | left + 1, s =>
    match t.send s r with
    | (.response status body, s) => (.response status body, s)
    | (.failure, s) => sendFrom p t r left (t.wait s (p.delay (p.maxRetries - (left + 1))))

/-- Sends a request until it gets a response or the retries are used up. -/
def send {τ : Type} (p : RetryPolicy) (t : Transport τ) (s : τ) (r : HttpRequest) : Delivery × τ :=
  p.sendFrom t r p.maxRetries s

end RetryPolicy

/-! ### The client -/

/-- A client of a metadata service. -/
structure HttpClient where
  baseUrl : Net.Url
  authorization : Option String
  retry : RetryPolicy
  deriving DecidableEq

namespace HttpClient

/-- Whether a text may be sent in a header. -/
def isHeaderText (s : String) : Bool :=
  s.toList.all fun c => c == '\t' || !Net.isControl c

/-- The client that a configuration describes. -/
def ofConfig (c : ClientConfig) : Except ClientError HttpClient :=
  let client (authorization : Option String) : HttpClient :=
    { baseUrl := c.endpoint, authorization
      retry := ⟨c.maxRetries, c.retryBaseDelayMs * 1000000⟩ }
  match c.apiToken with
  | none => .ok (client none)
  | some token =>
    if isHeaderText token then .ok (client (some ("Bearer " ++ token))) else .error .invalidToken

/-- A text without the slashes at its end. -/
def trimSlashes (s : String) : String :=
  String.ofList (s.toList.reverse.dropWhile (· == '/')).reverse

/-- Where batches are asked for. -/
def batchUrl (c : HttpClient) : String :=
  trimSlashes c.baseUrl.toText ++ "/v1/metadata/batch"

/-- What the endpoint for batches is called in errors. -/
def endpoint : String := "POST /v1/metadata/batch"

/-- The request for some policies. -/
def request (c : HttpClient) (ps : List PolicyRef) : HttpRequest :=
  ⟨c.batchUrl, c.authorization, Wire.batchRequest.encode ps⟩

/-- The items that a delivery brings. -/
def itemsOf : Delivery → Except ClientError (List BatchItem)
  | .failure => .error (.transport endpoint)
  | .response status body =>
    if 200 ≤ status ∧ status < 300 then
      match BatchAnswer.codec.decode body with
      | .ok answer => .ok answer.items
      | .error _ => .error (.undecodable endpoint)
    else .error (.refused endpoint status body)

/-- The source that asks a service. -/
def source {τ : Type} (c : HttpClient) (t : Transport τ) : Source τ where
  fetch s ps :=
    let (d, s) := c.retry.send t s (c.request ps)
    (itemsOf d, s)

end HttpClient

namespace Session

/-- Fetches ahead the policies that a configuration lists. -/
def warmUp {σ : Type} (src : Source σ) (s : Session σ) (c : ClientConfig) :
    Session σ × PrefetchReport :=
  if c.prefetch.isEmpty then (s, {}) else s.prefetch src c.prefetch

end Session

end Compliance
