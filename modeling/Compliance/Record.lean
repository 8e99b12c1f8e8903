import Compliance.InputError
import Compliance.Metadata
import Compliance.Table

/-!
# Attribute records

Evidence travels in records of attributes, whose values are texts or lists of texts. What is known
about the evidence is written back to the record, under keys that begin with `compliance`.

* `Record.evidence` : the evidence that a record carries.
* `Record.enriched` : a record with what is known about its evidence.
-/

namespace Compliance

open Compliance.Text (isBlankText)

/-- The value of an attribute. -/
inductive AttributeValue where
  | text (s : String)
  | list (items : List String)
  deriving DecidableEq, Repr

/-- A record of attributes, with the time at which it was made if that is known. -/
structure Record where
  timestamp : Option Time.Instant
  attributes : Table String AttributeValue
  deriving DecidableEq

namespace Record

/-! ### Keys -/

/-- The key of the policy rule. -/
def ruleKey : String := "policy.rule.id"

/-- The key of the policy engine. -/
def engineKey : String := "policy.engine.name"

/-- The key of the evaluation outcome. -/
def evaluationKey : String := "policy.evaluation.result"

/-- The key of the verdict. -/
def verdictKey : String := "compliance.status"

/-- The key of the control. -/
def controlKey : String := "compliance.control.id"

/-- The key of the catalog. -/
def catalogKey : String := "compliance.control.catalog.id"

/-- The key of the control's category. -/
def categoryKey : String := "compliance.control.category"

/-- The key of the requirements of standards. -/
def requirementsKey : String := "compliance.requirements"

/-- The key of the standards. -/
def frameworksKey : String := "compliance.frameworks"

/-- The key of the resolution's status. -/
def statusKey : String := "compliance.enrichment.status"

/-- The key of the advice for a failure. -/
def remediationKey : String := "compliance.remediation.description"

/-! ### Evidence -/

/-- The text under a key, which is not blank. -/
def usableText (r : Record) (key : String) : Except InputError String :=
  match r.attributes.get? key with
  | some (.text s) => if isBlankText s then .error (.missingAttribute key) else .ok s
  | _ => .error (.missingAttribute key)

/-- The evidence that a record carries; `now` is its time if the record does not give one. -/
def evidence (r : Record) (now : Time.Instant) : Except InputError Evidence := do
  let rule ← Identifier.ofText .rule (← r.usableText ruleKey)
  let engine ← Identifier.ofText .engine (← r.usableText engineKey)
  let evaluation := Evaluation.ofText (← r.usableText evaluationKey)
  return ⟨⟨engine, rule⟩, evaluation, r.timestamp.getD now⟩

/-! ### Enrichment -/

/-- A record with one attribute written. -/
def put (r : Record) (key : String) (v : AttributeValue) : Record :=
  { r with attributes := r.attributes.insert key v }

/-- The attributes that an enrichment writes. -/
def written (e : Enrichment) : List (String × AttributeValue) :=
  [ (verdictKey, .text e.verdict.name),
    (controlKey, .text e.metadata.controlId),
    (catalogKey, .text e.metadata.catalogId),
    (categoryKey, .text e.metadata.category),
    (requirementsKey, .list e.metadata.requirements),
    (frameworksKey, .list e.metadata.frameworks),
    (statusKey, .text e.status.name) ] ++
  (e.metadata.remediation.map fun s => (remediationKey, AttributeValue.text s)).toList

/-- A record with what is known about its evidence. -/
def enriched (r : Record) (e : Enrichment) : Record :=
  (written e).foldl (fun r (key, v) => r.put key v) r

end Record

end Compliance
