import Compliance.File.Document
import Compliance.Net.IpAddress
import Compliance.Service.State

/-!
# Configuration of the service

Which catalogs and plans the service loads, and where and how it serves them. Relative paths start
from the directory of the configuration.

* `ServiceConfig.load` : the configuration in a file.
* `ServiceConfig.bootstrap` : the service that a configuration describes.
-/

namespace Compliance

open Codec
open Codec.Fields (required defaulted)

/-- The forms of log lines. -/
inductive LogFormat where
  | text
  | json
  deriving DecidableEq, Repr

namespace LogFormat

/-- The name of a form. -/
def name : LogFormat → String
  | text => "text"
  | json => "json"

/-- The form of a name. -/
def named? (s : String) : Option LogFormat :=
  [text, json].find? fun f => f.name == s

end LogFormat

/-- A file with plans for one catalog. -/
structure PlanSource where
  catalog : CatalogId
  path : String
  deriving DecidableEq

/-- A source names its catalog and its path. -/
def PlanSource.codec : Codec PlanSource :=
  (required "catalog_id" (Identifier.codec .catalog) <|
    required "path" string .nil).codec.map
    (fun (catalog, path, _) => ⟨catalog, path⟩)
    (fun s => (s.catalog, s.path, ()))

/-- What the service loads and how it serves. -/
structure ServiceConfig where
  bindAddress : Net.IpAddress := .v4 0 0 0 0
  port : Nat := 8081
  maxBatchSize : Nat := Service.defaultMaxBatchSize
  catalogs : List String := []
  plans : List PlanSource := []
  logFormat : LogFormat := .text
  deriving DecidableEq

namespace ServiceConfig

/-- Each part of a configuration may be left out. -/
def codec : Codec ServiceConfig :=
  let base : ServiceConfig := {}
  let address : Codec Net.IpAddress :=
    parsed (fun s => orMismatch (Net.IpAddress.read? s)) Net.IpAddress.toText
  (defaulted "bind_address" address base.bindAddress <|
    defaulted "port" (natural 65536) base.port <|
    defaulted "max_batch_size" count base.maxBatchSize <|
    defaulted "catalogs" (list string) base.catalogs <|
    defaulted "plans" (list PlanSource.codec) base.plans <|
    defaulted "log_format" (choice LogFormat.name LogFormat.named?) base.logFormat .nil).codec.map
    (fun (bindAddress, port, maxBatchSize, catalogs, plans, logFormat, _) =>
      { bindAddress, port, maxBatchSize, catalogs, plans, logFormat })
    (fun c => (c.bindAddress, c.port, c.maxBatchSize, c.catalogs, c.plans, c.logFormat, ()))

/-- A configuration whose relative paths start from a directory. -/
def resolvePaths (c : ServiceConfig) (base : String) : ServiceConfig :=
  let resolve (p : String) : String := if Path.isRelative p then Path.join base p else p
  { c with
    catalogs := c.catalogs.map resolve
    plans := c.plans.map fun s => { s with path := resolve s.path } }

/-- Refuses a configuration with a zero that makes no sense. -/
def validate (c : ServiceConfig) : Except ConfigError ServiceConfig :=
  if c.port = 0 then .error (.zero "port")
  else if c.maxBatchSize = 0 then .error (.zero "max_batch_size")
  else .ok c

/-- The configuration in a file. -/
def load (files : Files) (path : String) : Except ConfigError ServiceConfig := do
  let c ← (files.document codec path).mapError .document
  match Path.parent? path with
  | some base => (c.resolvePaths base).validate
  | none => c.validate

/-- The store with the plans of some files. -/
def loadPlanSources (files : Files) : PlanStore → List PlanSource → Except LoadError PlanStore
  | store, [] => .ok store
  | store, s :: rest => do
    loadPlanSources files (store.register s.catalog (← loadPlans files s.path)) rest

/-- The service that a configuration describes. -/
def bootstrap (c : ServiceConfig) (files : Files) : Except LoadError Service := do
  let catalogs ← loadCatalogs files c.catalogs
  let plans ← loadPlanSources files {} c.plans
  return { Service.basic (.ofCatalogs catalogs) plans with maxBatchSize := c.maxBatchSize }

/-- The address and port that the service listens on. -/
def socket (c : ServiceConfig) : String := Net.socketText c.bindAddress c.port

end ServiceConfig

end Compliance
