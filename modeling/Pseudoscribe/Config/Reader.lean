import Pseudoscribe.Config.Basic
import Pseudoscribe.Config.Convert

/-!
# Reading a configuration

A configuration is read from a tree of values.  Whatever is missing keeps its default.
-/

namespace Pseudoscribe.Config

/-- Read a record all of whose members may be left out. -/
def section? (names : List String) (j : Json) : Option Json.Record :=
  j.record? (names.map (·, .defaulted))

def Server.ofJson? (c : Convert) (j : Json) : Option Server := do
  let r ← section? ["host", "port"] j
  let d : Server := {}
  let host ← r.readOr? "host" d.host c.text
  let port ← r.readOr? "port" d.port (c.count 16)
  pure { host, port }

/-- The language and the options of requests that name none. -/
def requestsOfJson? (c : Convert) (j : Json) : Option (String × Options) := do
  let r ← section? ["target_language", "max_chunk_size", "overlap_lines", "max_retries",
    "worker_count", "timeout_seconds", "model_backend", "model_revision", "retry_backoff_ms"] j
  let d : Options := {}
  let language ← r.readOr? "target_language" "python" c.text
  let maxChunkSize ← r.readOr? "max_chunk_size" d.maxChunkSize (c.count 64)
  let overlapLines ← r.readOr? "overlap_lines" d.overlapLines (c.count 64)
  let maxRetries ← r.readOr? "max_retries" d.maxRetries (c.count 32)
  let workerCount ← r.readOr? "worker_count" d.workerCount (c.count 64)
  let timeoutSeconds ← r.readOr? "timeout_seconds" d.timeoutSeconds c.real
  let backend ← r.readOr? "model_backend" d.backend fun j =>
    (c.word j).bind BackendKind.ofName?
  let revision ← r.readOr? "model_revision" d.revision c.text
  let retryBackoffMs ← r.readOr? "retry_backoff_ms" d.retryBackoffMs (c.count 64)
  pure (language, { maxChunkSize, overlapLines, maxRetries, workerCount, timeoutSeconds, backend,
                    revision, retryBackoffMs })

def Pool.ofJson? (c : Convert) (j : Json) : Option Pool := do
  let r ← section? ["worker_count", "worker_program", "queue_capacity", "startup_timeout_secs"] j
  let d : Pool := {}
  let workerCount ← r.readOr? "worker_count" d.workerCount (Json.optional? (c.count 64))
  let program ← r.readOr? "worker_program" d.program (Json.optional? c.text)
  let queueCapacity ← r.readOr? "queue_capacity" d.queueCapacity (c.count 64)
  let startupSeconds ← r.readOr? "startup_timeout_secs" d.startupSeconds (c.count 64)
  pure { workerCount, program, queueCapacity, startupSeconds }

def Embedded.ofJson? (c : Convert) (j : Json) : Option Embedded := do
  let r ← section? ["models_dir", "model_name"] j
  let d : Embedded := {}
  let directory ← r.readOr? "models_dir" d.directory c.text
  let model ← r.readOr? "model_name" d.model c.text
  pure { directory, model }

def Remote.ofJson? (c : Convert) (j : Json) : Option Remote := do
  let r ← section? ["url", "model_name", "api_key", "timeout_secs", "default_confidence",
    "supported_languages", "max_context_tokens"] j
  let d : Remote := {}
  let url ← r.readOr? "url" d.url c.text
  let model ← r.readOr? "model_name" d.model c.text
  let apiKey ← r.readOr? "api_key" d.apiKey (Json.optional? c.text)
  let timeoutSeconds ← r.readOr? "timeout_secs" d.timeoutSeconds c.real
  let defaultConfidence ← r.readOr? "default_confidence" d.defaultConfidence c.real
  let languages ← r.readOr? "supported_languages" d.languages (Json.listOf? c.text)
  let maxContextTokens ← r.readOr? "max_context_tokens" d.maxContextTokens (c.count 64)
  pure { url, model, apiKey, timeoutSeconds, defaultConfidence, languages, maxContextTokens }

def Store.ofJson? (c : Convert) (j : Json) : Option Store := do
  let r ← section? ["enabled", "path", "max_entries"] j
  let d : Store := {}
  let enabled ← r.readOr? "enabled" d.enabled c.bool
  let path ← r.readOr? "path" d.path c.text
  let maxEntries ← r.readOr? "max_entries" d.maxEntries (c.count 64)
  pure { enabled, path, maxEntries }

def Log.ofJson? (c : Convert) (j : Json) : Option Log := do
  let r ← section? ["level", "json"] j
  let d : Log := {}
  let level ← r.readOr? "level" d.level c.text
  let json ← r.readOr? "json" d.json c.bool
  pure { level, json }

/-- Read a configuration from a tree of values. -/
def ofJson? (c : Convert) (j : Json) : Option Config := do
  let r ← section? ["server", "translator", "pool", "local_model", "remote_model", "cache", "log"] j
  let server ← r.readOr? "server" {} (Server.ofJson? c)
  let (language, options) ← r.readOr? "translator" ("python", {}) (requestsOfJson? c)
  let pool ← r.readOr? "pool" {} (Pool.ofJson? c)
  let embedded ← r.readOr? "local_model" {} (Embedded.ofJson? c)
  let remote ← r.readOr? "remote_model" {} (Remote.ofJson? c)
  let store ← r.readOr? "cache" {} (Store.ofJson? c)
  let log ← r.readOr? "log" {} (Log.ofJson? c)
  pure { server, language, options, pool, embedded, remote, store, log }

end Pseudoscribe.Config
