import Compliance.Batch
import Compliance.Codec.Record
import Compliance.Record
import Compliance.Time.Rfc3339

/-!
# Wire forms

The codecs of all values that are exchanged with other programs or read from documents. Names of
members are in camel case, lists may be left out where they are empty, and what is missing is not
written.

* `WireType` : the types of those values.
* `WireType.codec` : the codec of each of them.
-/

namespace Compliance

open Codec
open Codec.Fields (required defaulted optional)

/-- The codec of a value that stands alone in an object, under a name. -/
def Codec.member {α : Type} (name : String) (c : Codec α) : Codec α :=
  (required name c .nil).codec.map (fun (a, _) => a) (fun a => (a, ()))

/-! ### Scalars -/

/-- Identifiers are read from any text that is not blank. -/
def Identifier.codec (kind : IdentifierKind) : Codec (Identifier kind) :=
  parsed
    (fun s => match ofText? kind s with
      | some a => .ok a
      | none => .error (.blankIdentifier kind))
    Identifier.text

/-- Outcomes are read from any text. -/
def Evaluation.codec : Codec Evaluation :=
  parsed (fun s => .ok (ofText s)) name

/-- Verdicts stand as their names. -/
def Verdict.codec : Codec Verdict := choice name named?

/-- Statuses stand as their names. -/
def ResolutionStatus.codec : Codec ResolutionStatus := choice name named?

/-- Instants stand as text in universal time. -/
def Time.Instant.codec : Codec Time.Instant :=
  parsed (fun s => orMismatch (read? s)) toText

/-! ### Evidence and metadata -/

/-- A policy names its engine and its rule. -/
def PolicyRef.codec : Codec PolicyRef :=
  (required "engineName" (Identifier.codec .engine) <|
    required "ruleId" (Identifier.codec .rule) .nil).codec.map
    (fun (engine, rule, _) => ⟨engine, rule⟩)
    (fun p => (p.engine, p.rule, ()))

/-- Evidence without a time was observed `now`. -/
def Evidence.codec (now : Time.Instant) : Codec Evidence :=
  (required "policy" PolicyRef.codec <|
    required "outcome" Evaluation.codec <|
    defaulted "observedAt" Time.Instant.codec now .nil).codec.map
    (fun (policy, evaluation, observedAt, _) => ⟨policy, evaluation, observedAt⟩)
    (fun e => (e.policy, e.evaluation, e.observedAt, ()))

/-- Metadata may lack advice, requirements and frameworks. -/
def Metadata.codec : Codec Metadata :=
  (required "controlId" string <|
    required "category" string <|
    required "catalogId" string <|
    optional "remediationDescription" string <|
    defaulted "requirements" (list string) [] <|
    defaulted "frameworks" (list string) [] .nil).codec.map
    (fun (controlId, category, catalogId, remediation, requirements, frameworks, _) =>
      ⟨controlId, category, catalogId, remediation, requirements, frameworks⟩)
    (fun m =>
      (m.controlId, m.category, m.catalogId, m.remediation, m.requirements, m.frameworks, ()))

/-- A resolution is its status and metadata. -/
def Resolution.codec : Codec Resolution :=
  (required "enrichmentStatus" ResolutionStatus.codec <|
    required "metadata" Metadata.codec .nil).codec.map
    (fun (status, metadata, _) => ⟨status, metadata⟩)
    (fun r => (r.status, r.metadata, ()))

/-- An enrichment is a resolution and a verdict. -/
def Enrichment.codec : Codec Enrichment :=
  (required "metadata" Metadata.codec <|
    required "enrichmentStatus" ResolutionStatus.codec <|
    required "verdict" Verdict.codec .nil).codec.map
    (fun (metadata, status, verdict, _) => ⟨metadata, status, verdict⟩)
    (fun e => (e.metadata, e.status, e.verdict, ()))

/-! ### Documents -/

/-- A mapping lists requirements, each in an object of its own. -/
def StandardMapping.codec : Codec StandardMapping :=
  (required "standardRef" string <|
    defaulted "entries" (list (member "requirementRef" string)) [] .nil).codec.map
    (fun (standard, requirements, _) => ⟨standard, requirements⟩)
    (fun m => (m.standard, m.requirements, ()))

/-- A control may lack standards. -/
def Control.codec : Codec Control :=
  (required "controlId" string <|
    defaulted "standardMappings" (list StandardMapping.codec) [] .nil).codec.map
    (fun (id, standards, _) => ⟨id, standards⟩)
    (fun c => (c.id, c.standards, ()))

/-- A family may lack controls. -/
def ControlFamily.codec : Codec ControlFamily :=
  (required "title" string <|
    defaulted "controls" (list Control.codec) [] .nil).codec.map
    (fun (title, controls, _) => ⟨title, controls⟩)
    (fun f => (f.title, f.controls, ()))

/-- A catalog may lack families. -/
def Catalog.codec : Codec Catalog :=
  (required "catalogId" (Identifier.codec .catalog) <|
    defaulted "controlFamilies" (list ControlFamily.codec) [] .nil).codec.map
    (fun (id, families, _) => ⟨id, families⟩)
    (fun c => (c.id, c.families, ()))

/-- A procedure may lack documentation. -/
def Procedure.codec : Codec Procedure :=
  (required "procedureId" string <|
    defaulted "documentation" string "" .nil).codec.map
    (fun (id, documentation, _) => ⟨id, documentation⟩)
    (fun p => (p.id, p.documentation, ()))

/-- A requirement may lack procedures. -/
def Requirement.codec : Codec Requirement :=
  (required "requirementId" string <|
    defaulted "procedures" (list Procedure.codec) [] .nil).codec.map
    (fun (id, procedures, _) => ⟨id, procedures⟩)
    (fun r => (r.id, r.procedures, ()))

/-- A plan may lack requirements. -/
def AssessmentPlan.codec : Codec AssessmentPlan :=
  (required "controlId" string <|
    defaulted "requirements" (list Requirement.codec) [] .nil).codec.map
    (fun (controlId, requirements, _) => ⟨controlId, requirements⟩)
    (fun p => (p.controlId, p.requirements, ()))

/-! ### Batches -/

/-- An item carries an outcome or an error. -/
def BatchItem.codec : Codec BatchItem :=
  (required "index" count <|
    required "policyRuleId" (Identifier.codec .rule) <|
    optional "compliance" Resolution.codec <|
    optional "error" string .nil).codec.map
    (fun (index, rule, outcome, error, _) => ⟨index, rule, outcome, error⟩)
    (fun i => (i.index, i.rule, i.outcome, i.error, ()))

/-- A summary is three counts. -/
def BatchSummary.codec : Codec BatchSummary :=
  (required "total" count <|
    required "success" count <|
    required "failed" count .nil).codec.map
    (fun (total, success, failed, _) => ⟨total, success, failed⟩)
    (fun s => (s.total, s.success, s.failed, ()))

/-- An answer is the items and their summary. -/
def BatchAnswer.codec : Codec BatchAnswer :=
  (required "results" (list BatchItem.codec) <|
    required "summary" BatchSummary.codec .nil).codec.map
    (fun (items, summary, _) => ⟨items, summary⟩)
    (fun a => (a.items, a.summary, ()))

/-! ### Requests and responses -/

namespace Wire

/-- A request for the metadata of one policy. -/
def metadataRequest : Codec PolicyRef := member "policy" PolicyRef.codec

/-- The answer to a request for metadata. -/
def metadataResponse : Codec Resolution := member "compliance" Resolution.codec

/-- A request for the metadata of several policies. -/
def batchRequest : Codec (List PolicyRef) := member "policies" (list PolicyRef.codec)

/-- A request for the enrichment of evidence. -/
def enrichRequest (now : Time.Instant) : Codec Evidence := member "evidence" (Evidence.codec now)

/-- The answer to a request for enrichment. -/
def enrichResponse : Codec Enrichment := member "result" Enrichment.codec

end Wire

/-! ### Records -/

/-- The texts that some JSON values are, if they all are texts. -/
def AttributeValue.texts? : List Json → Option (List String)
  | [] => some []
  | .string s :: items => (texts? items).map (s :: ·)
  | _ :: _ => none

/-- The attribute value that a JSON value stands for. -/
def AttributeValue.ofJson? : Json → Option AttributeValue
  | .string s => some (.text s)
  | .array items => (texts? items).map .list
  | _ => none

/-- An attribute is a text or a list of texts; any other value is read to its end before it is
refused. -/
def AttributeValue.codec : Codec AttributeValue where
  write
    | .text s => .string s
    | .list items => .array (items.map .string)
  read depth cs := here do
    let (j, rest) ← Json.readValue depth cs
    return (← orMismatch (ofJson? j), rest)
  yaml := Yaml.Reading.following fun doc node n =>
    match node with
    | .sequence _ => do
      let (items, n) ← Yaml.Reading.list Yaml.Reading.text doc node n
      return (.list items, n)
    | node => do
      let (s, n) ← Yaml.Reading.text doc node n
      return (.text s, n)

/-- A record may lack a time and attributes. -/
def Record.codec : Codec Record :=
  (optional "timestamp" Time.Instant.codec <|
    defaulted "attributes" (table AttributeValue.codec) {} .nil).codec.map
    (fun (timestamp, attributes, _) => ⟨timestamp, attributes⟩)
    (fun r => (r.timestamp, r.attributes, ()))

/-! ### The types on the wire -/

/-- The types whose values stand in texts of their own. -/
inductive WireType where
  | catalogId
  | engineName
  | ruleId
  | policyRef
  | evaluation
  | verdict
  | status
  | metadata
  | resolution
  | enrichment
  | catalog
  | plan
  | metadataRequest
  | metadataResponse
  | batchRequest
  | batchItem
  | batchSummary
  | batchAnswer
  | enrichResponse
  | attributeValue
  | record
  | evidence
  | enrichRequest
  deriving DecidableEq, Repr

namespace WireType

/-- The values of a type. -/
abbrev Value : WireType → Type
  | catalogId => CatalogId
  | engineName => EngineName
  | ruleId => RuleId
  | policyRef | metadataRequest => PolicyRef
  | evaluation => Evaluation
  | verdict => Verdict
  | status => ResolutionStatus
  | metadata => Metadata
  | resolution | metadataResponse => Resolution
  | enrichment | enrichResponse => Enrichment
  | catalog => Catalog
  | plan => AssessmentPlan
  | batchRequest => List PolicyRef
  | batchItem => BatchItem
  | batchSummary => BatchSummary
  | batchAnswer => BatchAnswer
  | attributeValue => AttributeValue
  | record => Record
  | evidence | enrichRequest => Evidence

/-- The codec of a type; evidence without a time was observed `now`. -/
def codec (now : Time.Instant) : (t : WireType) → Codec t.Value
  | catalogId => Identifier.codec .catalog
  | engineName => Identifier.codec .engine
  | ruleId => Identifier.codec .rule
  | policyRef => PolicyRef.codec
  | evaluation => Evaluation.codec
  | verdict => Verdict.codec
  | status => ResolutionStatus.codec
  | metadata => Metadata.codec
  | resolution => Resolution.codec
  | enrichment => Enrichment.codec
  | catalog => Catalog.codec
  | plan => AssessmentPlan.codec
  | metadataRequest => Wire.metadataRequest
  | metadataResponse => Wire.metadataResponse
  | batchRequest => Wire.batchRequest
  | batchItem => BatchItem.codec
  | batchSummary => BatchSummary.codec
  | batchAnswer => BatchAnswer.codec
  | enrichResponse => Wire.enrichResponse
  | attributeValue => AttributeValue.codec
  | record => Record.codec
  | evidence => Evidence.codec now
  | enrichRequest => Wire.enrichRequest now

end WireType

end Compliance
