import Compliance.Wire

/-!
# Paths and documents

Catalogs and plans are kept in YAML files. How a file is read and how its text is parsed is given:
loading is a function of both.

* `Path.isRelative`, `Path.join`, `Path.parent?` : paths as texts whose parts stand between slashes.
* `Files` : the files that can be read, and the parser of their texts.
* `loadCatalogs`, `loadPlans` : the contents of some files.
-/

namespace Compliance

/-! ### Paths -/

namespace Path

/-- Whether a path begins at no root. -/
def isRelative (p : String) : Bool := !p.startsWith "/"

/-- A path continued by a relative one. -/
def join (base p : String) : String :=
  if base.isEmpty || base.endsWith "/" then base ++ p else base ++ "/" ++ p

/-- Parts of a path without those at the back that lead nowhere. -/
def trimParts (parts : List String) : List String :=
  (parts.reverse.dropWhile fun s => s.isEmpty || s == ".").reverse

/-- Parts of a path without the last one that leads somewhere. -/
def parentParts? (parts : List String) : Option (List String) :=
  match trimParts parts with
  | [] => none
  | ps => some (trimParts ps.dropLast)

/-- The path of the directory that holds a path, if there is one. A point at the very front of a
relative path stays. -/
def parent? (p : String) : Option String :=
  let parts := p.splitOn "/"
  if isRelative p then
    match parts with
    | "." :: rest =>
      match parentParts? rest with
      | some ps => some ("/".intercalate ("." :: ps))
      | none => some ""
    | parts => (parentParts? parts).map fun ps => "/".intercalate ps
  else (parentParts? (parts.drop 1)).map fun ps => "/" ++ "/".intercalate ps

end Path

/-! ### Files -/

open Codec (Fault)

/-- The files that a program can read. -/
structure Files where
  /-- The text of a file, by path. -/
  text : String → Option String
  /-- How the text of a file is parsed. -/
  parse : {α : Type} → Codec α → String → Except Fault α := Codec.decodeYaml

/-- Why a file gives no document. -/
inductive DocumentError where
  /-- The file cannot be read as text. -/
  | unreadable (path : String)
  /-- The text is not the document it should be. -/
  | unparsable (path : String) (f : Fault)
  deriving DecidableEq

/-- The document in a file. -/
def Files.document {α : Type} (files : Files) (c : Codec α) (path : String) :
    Except DocumentError α :=
  match files.text path with
  | none => .error (.unreadable path)
  | some text => (files.parse c text).mapError (.unparsable path)

/-- Why catalogs or plans cannot be loaded. -/
inductive LoadError where
  | document (e : DocumentError)
  /-- A file holds a catalog that an earlier file holds too. -/
  | duplicateCatalog (catalog : CatalogId) (path : String)
  deriving DecidableEq

/-- The text that a user is shown for a repeated catalog. -/
def duplicateCatalogMessage (catalog : CatalogId) (path : String) : String :=
  "duplicate catalog id " ++ catalog.text ++ " in " ++ path

/-- The catalog in a file. -/
def loadCatalog (files : Files) (path : String) : Except LoadError Catalog :=
  (files.document Catalog.codec path).mapError .document

/-- The plans in a file. -/
def loadPlans (files : Files) (path : String) : Except LoadError (List AssessmentPlan) :=
  (files.document (Codec.list AssessmentPlan.codec) path).mapError .document

/-- The catalogs in some files, which all have to differ from one another and from those `seen`. -/
def loadCatalogsAfter (files : Files) (seen : List CatalogId) :
    List String → Except LoadError (List Catalog)
  | [] => .ok []
  | path :: paths => do
    let c ← loadCatalog files path
    if c.id ∈ seen then .error (.duplicateCatalog c.id path)
    else return c :: (← loadCatalogsAfter files (c.id :: seen) paths)

/-- The catalogs in some files, no two with one id. -/
def loadCatalogs (files : Files) (paths : List String) : Except LoadError (List Catalog) :=
  loadCatalogsAfter files [] paths

/-- Why a configuration cannot be used. -/
inductive ConfigError where
  | document (e : DocumentError)
  /-- A number that has to be positive is zero. -/
  | zero (field : String)
  deriving DecidableEq

/-- The text that a user is shown for a number that is zero. -/
def zeroMessage (field : String) : String :=
  "invalid " ++ field ++ ": must be greater than zero"

end Compliance
