import Compliance.Service.State

/-!
# Sources of metadata

A source answers batches of policies, and may change as it does. Its answers are taken as they come:
they may fail as a whole, miss items, or hold items that were not asked for.

* `Source` : a source, as a machine.
* `Source.fetchOne` : the outcome of one policy, asked for as a batch of one.
* `Service.source` : a service in the same program, without a network between.
-/

namespace Compliance

/-- Why metadata could not be obtained. -/
inductive ClientError where
  /-- No response arrived. -/
  | transport (endpoint : String)
  /-- A response arrived that reports a failure. -/
  | refused (endpoint : String) (status : Nat) (body : String)
  /-- A response arrived that cannot be read. -/
  | undecodable (endpoint : String)
  /-- The answer has no outcome for the rule. -/
  | missingResult (rule : RuleId)
  /-- The answer has an error for the rule. -/
  | item (rule : RuleId) (message : String)
  /-- The token cannot be sent. -/
  | invalidToken
  deriving DecidableEq

/-- The text that a user is shown; what a library has to say about a failure is left out. -/
def ClientError.message : ClientError → String
  | .transport endpoint => "HTTP error calling " ++ endpoint
  | .refused endpoint status body =>
    "metadata service " ++ endpoint ++ " returned " ++ toString status ++ ": " ++ body
  | .undecodable endpoint => "failed to deserialize response from " ++ endpoint
  | .missingResult rule => "no metadata returned for policy rule " ++ rule.text
  | .item rule message => "error fetching metadata for policy rule " ++ rule.text ++ ": " ++ message
  | .invalidToken => "configuration error: invalid API token header value"

/-- A source of metadata with states `σ`. -/
structure Source (σ : Type) where
  fetch : σ → List PolicyRef → Except ClientError (List BatchItem) × σ

/-- The outcome that the answer to a batch of one policy carries: that of its first item, whatever
rule the item names. -/
def singleOutcome (p : PolicyRef) : List BatchItem → Except ClientError Resolution
  | [] => .error (.missingResult p.rule)
  | item :: _ =>
    match item.error with
    | some message => .error (.item p.rule message)
    | none =>
      match item.outcome with
      | some r => .ok r
      | none => .error (.missingResult p.rule)

/-- The outcome of one policy. -/
def Source.fetchOne {σ : Type} (src : Source σ) (s : σ) (p : PolicyRef) :
    Except ClientError Resolution × σ :=
  match src.fetch s [p] with
  | (.ok items, s) => (singleOutcome p items, s)
  | (.error e, s) => (.error e, s)

/-- The source that answers from a service's state. No batch is too long for it, and it never
fails. -/
def Service.source : Source Service where
  fetch s ps := (.ok (s.resolveItems ps), s)

end Compliance
