import Compliance.Identifier

/-!
# Unusable input

Input that is refused before any work is done on it. That no catalog maps a rule is an answer and
not an error.
-/

namespace Compliance

/-- Why input is unusable. -/
inductive InputError where
  /-- An identifier is blank. -/
  | blankIdentifier (kind : IdentifierKind)
  /-- A batch names no policy. -/
  | emptyBatch
  /-- A batch names more policies than are allowed at once. -/
  | batchTooLarge (length max : Nat)
  /-- A record lacks an attribute, or has no usable text for it. -/
  | missingAttribute (name : String)
  deriving DecidableEq, Repr

/-- The text that a user is shown. -/
def InputError.message : InputError → String
  | .blankIdentifier kind => kind.label ++ " must not be empty"
  | .emptyBatch => "at least one policy rule is required"
  | .batchTooLarge length max =>
    "batch of " ++ toString length ++ " policy rules exceeds the maximum of " ++ toString max
  | .missingAttribute name => "missing required attribute: " ++ name

/-- The identifier of a text, or the error that it is blank. -/
def Identifier.ofText (kind : IdentifierKind) (s : String) :
    Except InputError (Identifier kind) :=
  match ofText? kind s with
  | some a => .ok a
  | none => .error (.blankIdentifier kind)

/-- Checks that a batch of some length is neither empty nor longer than allowed. -/
def checkBatchLength (length max : Nat) : Except InputError Unit :=
  if length = 0 then .error .emptyBatch
  else if max < length then .error (.batchTooLarge length max)
  else .ok ()

/-- A batch length passes exactly from 1 to the maximum. -/
theorem checkBatchLength_eq_ok_iff (length max : Nat) :
    checkBatchLength length max = .ok () ↔ 1 ≤ length ∧ length ≤ max := by
  unfold checkBatchLength
  by_cases hzero : length = 0
  · simp [hzero]
  · rw [if_neg hzero]
    by_cases hlarge : max < length
    · rw [if_pos hlarge]
      refine ⟨fun h => ?_, fun h => ?_⟩
      · cases h
      · omega
    · rw [if_neg hlarge]
      exact ⟨fun _ => ⟨by omega, by omega⟩, fun _ => rfl⟩

end Compliance
