import Compliance.Identifier

/-!
# Catalogs and assessment plans

The two documents that resolution joins. A catalog groups controls into families and maps them onto
standards. A plan lists the requirements of one control and the procedures that check them, and a
procedure is identified by the policy rule that carries it out.
-/

namespace Compliance

/-- A control's place in one external standard. -/
structure StandardMapping where
  standard : String
  /-- The standard's requirements that the control meets. -/
  requirements : List String
  deriving DecidableEq, Repr

/-- A control and its standards. -/
structure Control where
  id : String
  standards : List StandardMapping
  deriving DecidableEq, Repr

/-- A titled group of controls. -/
structure ControlFamily where
  title : String
  controls : List Control
  deriving DecidableEq, Repr

/-- A set of controls in families. -/
structure Catalog where
  id : CatalogId
  families : List ControlFamily
  deriving DecidableEq

/-- A check of a requirement; its id is the policy rule. -/
structure Procedure where
  id : String
  documentation : String
  deriving DecidableEq, Repr

/-- A requirement of a control and the procedures that check it. -/
structure Requirement where
  id : String
  procedures : List Procedure
  deriving DecidableEq, Repr

/-- The requirements that assess one control. -/
structure AssessmentPlan where
  controlId : String
  requirements : List Requirement
  deriving DecidableEq, Repr

/-- The controls of a catalog with the titles of their families, in the order of the document. -/
def Catalog.titledControls (c : Catalog) : List (String × Control) :=
  c.families.flatMap fun f => f.controls.map (f.title, ·)

end Compliance
