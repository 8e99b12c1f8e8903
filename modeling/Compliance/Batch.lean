import Compliance.InputError
import Compliance.Mapping.Resolver

/-!
# Batches

Several policies resolved at once. Each is resolved on its own, and each has one item in the answer,
in the order of the request.
-/

namespace Compliance

/-- The answer for one policy of a batch. Items from another program may carry both an outcome and
an error, or neither. -/
structure BatchItem where
  index : Nat
  rule : RuleId
  outcome : Option Resolution
  error : Option String
  deriving DecidableEq

namespace BatchItem

/-- An item with an outcome. -/
def resolved (index : Nat) (rule : RuleId) (r : Resolution) : BatchItem :=
  ⟨index, rule, some r, none⟩

/-- An item with an error. -/
def failed (index : Nat) (rule : RuleId) (error : String) : BatchItem :=
  ⟨index, rule, none, some error⟩

end BatchItem

/-- How many items a batch has, and how many of them have an outcome. -/
structure BatchSummary where
  total : Nat
  success : Nat
  failed : Nat
  deriving DecidableEq, Repr

/-- The summary of some items. -/
def BatchSummary.ofItems (items : List BatchItem) : BatchSummary :=
  let success := items.countP (·.outcome.isSome)
  ⟨items.length, success, items.length - success⟩

/-- The answer to a batch. -/
structure BatchAnswer where
  items : List BatchItem
  summary : BatchSummary
  deriving DecidableEq

namespace ResolverSet

/-- The items for some policies. -/
def resolveItems (rs : ResolverSet) (stores : Stores) (scope : Scope) (ps : List PolicyRef) :
    List BatchItem :=
  ps.mapIdx fun i p =>
    .resolved i p.rule ((rs.select p.engine).metadata stores p.rule scope)

/-- The answer to a batch of an allowed length. -/
def answerBatch (rs : ResolverSet) (stores : Stores) (scope : Scope) (max : Nat)
    (ps : List PolicyRef) : Except InputError BatchAnswer := do
  checkBatchLength ps.length max
  let items := rs.resolveItems stores scope ps
  return ⟨items, .ofItems items⟩

end ResolverSet

end Compliance
