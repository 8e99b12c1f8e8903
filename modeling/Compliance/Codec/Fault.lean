import Compliance.Identifier

/-!
# Decoding failures

Why a text cannot be read as a value, and where in the value the reading stopped.

* `Fault` : the cause.
* `Failure` : the cause with the way to the place where it was found.
* `Failure.within` : a failure seen from one level further out.
-/

namespace Compliance.Codec

/-- Why a text cannot be read as a value of a type. -/
inductive Fault where
  /-- The text breaks the rules of its notation. -/
  | malformed
  /-- The text ends before its value does. -/
  | truncated
  /-- The text holds a value of another shape. -/
  | mismatch
  /-- An identifier is blank. -/
  | blankIdentifier (kind : IdentifierKind)
  deriving DecidableEq, Repr

/-- One step into a structured value. -/
inductive Step where
  | member (name : String)
  | item (index : Nat)
  deriving DecidableEq, Repr

/-- A fault and the way to it, from the outside in. -/
structure Failure where
  fault : Fault
  path : List Step := []
  deriving DecidableEq, Repr

/-- A failure seen from one level further out. -/
def Failure.within (step : Step) (f : Failure) : Failure :=
  { f with path := step :: f.path }

/-- A result whose failure is seen from one level further out. -/
def within {α : Type} (step : Step) : Except Failure α → Except Failure α
  | .ok a => .ok a
  | .error f => .error (f.within step)

/-- A result with its fault placed where the reading stands. -/
def here {α : Type} : Except Fault α → Except Failure α
  | .ok a => .ok a
  | .error f => .error ⟨f, []⟩

/-! ### Results without a failure -/

section Results

variable {ε α β : Type}

@[simp] theorem here_ok (a : α) : here (.ok a) = .ok a := rfl

@[simp] theorem within_ok (step : Step) (a : α) : within step (.ok a) = .ok a := rfl

@[simp] theorem ok_bind (a : α) (f : α → Except ε β) : (.ok a >>= f) = f a := rfl

theorem here_eq_ok_iff {x : Except Fault α} {a : α} : here x = .ok a ↔ x = .ok a := by
  cases x <;> simp [here]

theorem within_eq_ok_iff {step : Step} {x : Except Failure α} {a : α} :
    within step x = .ok a ↔ x = .ok a := by
  cases x <;> simp [within]

theorem bind_eq_ok_iff {x : Except ε α} {f : α → Except ε β} {b : β} :
    (x >>= f) = .ok b ↔ ∃ a, x = .ok a ∧ f a = .ok b := by
  cases x with
  | ok a => simp
  | error e =>
    constructor
    · intro h
      cases h
    · rintro ⟨a, h, -⟩
      cases h

theorem bind_eq_error_iff {x : Except ε α} {f : α → Except ε β} {e : ε} :
    (x >>= f) = .error e ↔ x = .error e ∨ ∃ a, x = .ok a ∧ f a = .error e := by
  cases x with
  | ok a => simp
  | error e' =>
    constructor
    · intro h
      cases h
      exact .inl rfl
    · rintro (h | ⟨a, h, -⟩)
      · cases h
        rfl
      · cases h

end Results

/-! ### Paths -/

/-- The text of a path: names set off by points, positions in brackets, a lone point for none. -/
def pathText (path : List Step) : String :=
  if path.isEmpty then "." else go true path
where
  /-- The steps in order; no point stands before the first or before a position. -/
  go : Bool → List Step → String
    | _, [] => ""
    | first, .member name :: rest => (if first then "" else ".") ++ name ++ go false rest
    | _, .item index :: rest => "[" ++ toString index ++ "]" ++ go false rest

end Compliance.Codec
