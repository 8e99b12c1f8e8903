import Compliance.Evidence

/-!
# Compliance metadata

What is known about a policy rule apart from any evidence: the control it tests, where that control
stands and what to do about a failure.

* `Metadata` : the context of a rule.
* `Resolution` : metadata, and whether a catalog mapped the rule.
* `Enrichment` : a resolution together with the verdict of one piece of evidence.
-/

namespace Compliance

/-- The control that a rule tests, and its context. -/
structure Metadata where
  controlId : String
  category : String
  catalogId : String
  remediation : Option String
  requirements : List String
  frameworks : List String
  deriving DecidableEq, Repr

/-- Whether a catalog maps a rule. -/
inductive ResolutionStatus where
  | mapped
  | unmapped
  deriving DecidableEq, Repr

namespace ResolutionStatus

/-- The statuses. -/
def all : List ResolutionStatus := [mapped, unmapped]

/-- The name of a status. -/
def name : ResolutionStatus → String
  | mapped => "success"
  | unmapped => "unmapped"

/-- The status of a name. -/
def named? (s : String) : Option ResolutionStatus :=
  all.find? fun r => r.name == s

@[simp] theorem named?_name (r : ResolutionStatus) : named? r.name = some r := by
  cases r <;> decide

end ResolutionStatus

/-- What resolving a rule has found: it depends on no evidence, and may be kept. -/
structure Resolution where
  status : ResolutionStatus
  metadata : Metadata
  deriving DecidableEq, Repr

namespace Resolution

/-- A rule that a catalog maps. -/
def mapped (m : Metadata) : Resolution := ⟨.mapped, m⟩

/-- A rule that no catalog in scope maps; the rule stands in for the control. -/
def unmapped (rule : RuleId) : Resolution where
  status := .unmapped
  metadata :=
    { controlId := rule.text, category := "Unknown", catalogId := "unknown", remediation := none
      requirements := [], frameworks := [] }

/-- Whether a catalog maps the rule. -/
def isMapped (r : Resolution) : Bool := r.status == .mapped

end Resolution

/-- What a caller learns about one piece of evidence. -/
structure Enrichment where
  metadata : Metadata
  status : ResolutionStatus
  verdict : Verdict
  deriving DecidableEq, Repr

/-- A resolution with the verdict of the evidence in hand. -/
def Resolution.enrich (r : Resolution) (v : Verdict) : Enrichment :=
  ⟨r.metadata, r.status, v⟩

end Compliance
