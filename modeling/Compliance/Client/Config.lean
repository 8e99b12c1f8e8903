import Compliance.File.Document
import Compliance.Net.Url

/-!
# Configuration of the client

Where the metadata service is, how patiently it is asked, and which policies are fetched ahead.

* `ClientConfig.load` : the configuration in a file.
-/

namespace Compliance

open Codec
open Codec.Fields (required defaulted optional)

/-- How the client reaches the service. -/
structure ClientConfig where
  endpoint : Net.Url
  timeoutSecs : Nat := 30
  /-- A token that is sent with each request. -/
  apiToken : Option String := none
  maxRetries : Nat := 3
  retryBaseDelayMs : Nat := 200
  prefetchBatchSize : Nat := 50
  prefetch : List PolicyRef := []
  deriving DecidableEq

namespace ClientConfig

/-- A token that is not blank. -/
def usableToken (t : Option String) : Option String :=
  t.filter fun s => !Text.isBlankText s

/-- All but the endpoint may be left out, and a blank token is none. -/
def codec (idna : Net.Idna) : Codec ClientConfig :=
  let endpoint : Codec Net.Url :=
    parsed (fun s => orMismatch (Net.Url.read? idna s)) Net.Url.toText
  (required "endpoint" endpoint <|
    defaulted "timeout_secs" count 30 <|
    optional "api_token" string <|
    defaulted "max_retries" (natural 0x100000000) 3 <|
    defaulted "retry_base_delay_ms" count 200 <|
    defaulted "prefetch_batch_size" count 50 <|
    defaulted "prefetch" (list PolicyRef.codec) [] .nil).codec.map
    (fun (endpoint, timeoutSecs, apiToken, maxRetries, retryBaseDelayMs, prefetchBatchSize,
        prefetch, _) =>
      { endpoint, timeoutSecs, apiToken := usableToken apiToken, maxRetries, retryBaseDelayMs
        prefetchBatchSize, prefetch })
    (fun c =>
      (c.endpoint, c.timeoutSecs, c.apiToken, c.maxRetries, c.retryBaseDelayMs,
        c.prefetchBatchSize, c.prefetch, ()))

/-- Refuses a configuration with a zero that makes no sense. -/
def validate (c : ClientConfig) : Except ConfigError ClientConfig :=
  if c.timeoutSecs = 0 then .error (.zero "timeout_secs")
  else if c.prefetchBatchSize = 0 then .error (.zero "prefetch_batch_size")
  else .ok c

/-- The configuration in a file. -/
def load (idna : Net.Idna) (files : Files) (path : String) :
    Except ConfigError ClientConfig := do
  let c ← (files.document (codec idna) path).mapError .document
  c.validate

end ClientConfig

end Compliance
