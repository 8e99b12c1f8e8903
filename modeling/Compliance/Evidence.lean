import Compliance.Identifier
import Compliance.Time.Instant

/-!
# Evidence and verdicts

What a policy engine has observed: which rule it evaluated, what came out, and when. Outcomes are
words of a small vocabulary, and any other word counts as unknown.

* `PolicyRef` : a rule of an engine.
* `Evaluation` : the outcome of an evaluation.
* `Evidence` : an evaluation of a rule at an instant.
* `Verdict` : what an outcome means for compliance. It depends on the outcome alone, so it is
  computed afresh from each piece of evidence.
-/

namespace Compliance

open Compliance.Text (trim)

/-- A rule of a policy engine. Metadata is looked up by the rule alone. -/
structure PolicyRef where
  engine : EngineName
  rule : RuleId
  deriving DecidableEq

/-- The outcome of a policy evaluation. -/
inductive Evaluation where
  | passed
  | failed
  | notRun
  | notApplicable
  | needsReview
  | unknown
  deriving DecidableEq, Repr

namespace Evaluation

/-- The outcomes in the order of the vocabulary. -/
def all : List Evaluation :=
  [passed, failed, notRun, notApplicable, needsReview, unknown]

/-- The word for an outcome. -/
def name : Evaluation → String
  | passed => "Passed"
  | failed => "Failed"
  | notRun => "Not Run"
  | notApplicable => "Not Applicable"
  | needsReview => "Needs Review"
  | unknown => "Unknown"

/-- The outcome that a word stands for, blanks around it aside. -/
def ofText (s : String) : Evaluation :=
  (all.find? fun e => e.name == trim s).getD unknown

@[simp] theorem ofText_name (e : Evaluation) : ofText e.name = e := by
  cases e <;> decide +kernel

end Evaluation

/-- An evaluation of a policy rule. -/
structure Evidence where
  policy : PolicyRef
  evaluation : Evaluation
  observedAt : Time.Instant
  deriving DecidableEq

/-! ### Verdicts -/

/-- What evidence says about compliance. -/
inductive Verdict where
  | compliant
  | nonCompliant
  | notApplicable
  | unknown
  deriving DecidableEq, Repr

namespace Verdict

/-- The verdicts. -/
def all : List Verdict :=
  [compliant, nonCompliant, notApplicable, unknown]

/-- The name of a verdict. -/
def name : Verdict → String
  | compliant => "COMPLIANT"
  | nonCompliant => "NON_COMPLIANT"
  | notApplicable => "NOT_APPLICABLE"
  | unknown => "UNKNOWN"

/-- The verdict of a name. -/
def named? (s : String) : Option Verdict :=
  all.find? fun v => v.name == s

@[simp] theorem named?_name (v : Verdict) : named? v.name = some v := by
  cases v <;> decide

end Verdict

/-- The verdict of an evaluation outcome. -/
def Evaluation.verdict : Evaluation → Verdict
  | passed => .compliant
  | failed => .nonCompliant
  | notRun | notApplicable => .notApplicable
  | needsReview | unknown => .unknown

/-- The verdict of a piece of evidence. -/
def Evidence.verdict (e : Evidence) : Verdict :=
  e.evaluation.verdict

end Compliance
