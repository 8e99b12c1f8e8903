import Compliance.Text.Character

/-!
# Identifiers

Catalogs, policy engines and policy rules are identified by texts that are trimmed and not empty.
The kind of thing identified is part of an identifier's type, so a rule is never taken for a
catalog.

* `Identifier.ofText?` : the identifier of a text, if the text is not blank.
* `Identifier` is ordered by the code points of its text.
-/

namespace Compliance

open Compliance.Text (trim)

/-- The things that have identifiers. -/
inductive IdentifierKind where
  | catalog
  | engine
  | rule
  deriving DecidableEq, Repr

/-- The name of a kind of identifier in messages. -/
def IdentifierKind.label : IdentifierKind → String
  | .catalog => "catalog id"
  | .engine => "engine name"
  | .rule => "rule id"

/-- A trimmed text that is not empty. -/
structure Identifier (kind : IdentifierKind) where
  text : String
  trimmed : trim text = text
  nonempty : text ≠ ""
  deriving DecidableEq

/-- Identifies a compliance catalog. -/
abbrev CatalogId := Identifier .catalog

/-- Names a policy engine. -/
abbrev EngineName := Identifier .engine

/-- Identifies a policy rule within an engine. -/
abbrev RuleId := Identifier .rule

namespace Identifier

variable {kind : IdentifierKind}

/-- The identifier of a text, once trimmed; a blank text has none. -/
def ofText? (kind : IdentifierKind) (s : String) : Option (Identifier kind) :=
  if h : trim s = "" then none else some ⟨trim s, Text.trim_trim s, h⟩

@[ext] theorem ext {a b : Identifier kind} (h : a.text = b.text) : a = b := by
  cases a; cases b; cases h; rfl

instance : Ord (Identifier kind) := ⟨fun a b => compare a.text b.text⟩

instance : Std.TransOrd (Identifier kind) where
  eq_swap {a b} := @Std.OrientedCmp.eq_swap String compare _ a.text b.text
  isLE_trans {a b c} := @Std.TransCmp.isLE_trans String compare _ a.text b.text c.text

instance : Std.LawfulEqOrd (Identifier kind) where
  compare_self {a} := @Std.ReflCmp.compare_self String compare _ a.text
  eq_of_compare h := ext (Std.LawfulEqOrd.eq_of_compare (α := String) h)

@[simp] theorem ofText?_text (a : Identifier kind) : ofText? kind a.text = some a := by
  unfold ofText?
  have h : trim a.text ≠ "" := by rw [a.trimmed]; exact a.nonempty
  rw [dif_neg h]
  exact congrArg some (ext a.trimmed)

/-- The identifier of a text is the text without the blanks around it, and a blank text has none. -/
theorem ofText?_eq_some_iff {s : String} {a : Identifier kind} :
    ofText? kind s = some a ↔ trim s ≠ "" ∧ a.text = trim s := by
  unfold ofText?
  by_cases hs : trim s = ""
  · simp [hs]
  · simp [hs, Identifier.ext_iff, eq_comm]

end Identifier

end Compliance
