import Pseudoscribe.Backend.Kind
import Pseudoscribe.Text.Quoted

/-!
# Errors

The errors of each layer, and how one layer reports the errors of the layer below.  A failed chunk is no
error: it is part of the result.
-/

namespace Pseudoscribe

/-- Why a backend cannot be used. -/
inductive BackendError where
  | modelNotFound (detail : String)
  | unpinnedRevision (revision : String)
  | invalidManifest (detail : String)
  | configuration (detail : String)
  | network (detail : String)
  | timeout
  | service (detail : String)
  | invalidResponse (detail : String)
  | unregistered (kind : BackendKind)
deriving DecidableEq, Repr

namespace BackendError

def name : BackendError → String
  | modelNotFound _ => "ModelNotFound"
  | unpinnedRevision _ => "UnpinnedRevision"
  | invalidManifest _ => "InvalidManifest"
  | configuration _ => "Configuration"
  | network _ => "NetworkError"
  | timeout => "Timeout"
  | service _ => "ServiceError"
  | invalidResponse _ => "InvalidResponse"
  | unregistered _ => "Unregistered"

def message : BackendError → String
  | modelNotFound d => s!"Model not found: {d}"
  | unpinnedRevision r => s!"Model revision is not pinned: {Text.shown r}"
  | invalidManifest d => s!"Invalid model manifest: {d}"
  | configuration d => s!"Invalid backend configuration: {d}"
  | network d => s!"Network error: {d}"
  | timeout => "Request timeout"
  | service d => s!"Service error: {d}"
  | invalidResponse d => s!"Invalid response: {d}"
  | unregistered kind => s!"No backend registered for kind: {kind.name}"

end BackendError

/-- Why a request is not carried out at all. -/
inductive RunError where
  | invalidRequest (detail : String)
  | configuration (detail : String)
  | unresolvableRevision (model revision reason : String)
  | backendUnavailable (detail : String)
  | poolUnavailable (detail : String)
  | internal (detail : String)
deriving DecidableEq, Repr

namespace RunError

def name : RunError → String
  | invalidRequest _ => "InvalidRequest"
  | configuration _ => "Configuration"
  | unresolvableRevision .. => "ModelRevisionUnresolvable"
  | backendUnavailable _ => "BackendUnavailable"
  | poolUnavailable _ => "PoolUnavailable"
  | internal _ => "Internal"

def message : RunError → String
  | invalidRequest d => s!"无效的翻译请求: {d}"
  | configuration d => s!"配置错误: {d}"
  | unresolvableRevision model revision reason =>
    s!"无法解析模型版本 {model}@{revision}: {reason}"
  | backendUnavailable d => s!"模型后端不可用: {d}"
  | poolUnavailable d => s!"执行池不可用: {d}"
  | internal d => s!"内部错误: {d}"

/-- A fault of the configuration, with which a service does not start. -/
def isConfiguration : RunError → Bool
  | configuration _ | unresolvableRevision .. => true
  | _ => false

end RunError

/-- Why the store of results failed. -/
inductive StoreError where
  | serialization (detail : String)
  | io (detail : String)
  | database (detail : String)
deriving DecidableEq, Repr

namespace StoreError

def name : StoreError → String
  | serialization _ => "SerializationError"
  | io _ => "IoError"
  | database _ => "DatabaseError"

def message : StoreError → String
  | serialization d => s!"Serialization error: {d}"
  | io d => s!"IO error: {d}"
  | database d => s!"Database error: {d}"

end StoreError

/-- Why the register of requests refused a step. -/
inductive TrackerError where
  | notFound (id : String)
  | alreadyExists (id : String)
  | invalidTransition (detail : String)
deriving DecidableEq, Repr

namespace TrackerError

def name : TrackerError → String
  | notFound _ => "NotFound"
  | alreadyExists _ => "AlreadyExists"
  | invalidTransition _ => "InvalidStateTransition"

def message : TrackerError → String
  | notFound id => s!"Translation not found: {id}"
  | alreadyExists id => s!"Translation already exists: {id}"
  | invalidTransition d => s!"Invalid state transition: {d}"

end TrackerError

/-- Why a command or a query failed. -/
inductive ServiceError where
  | notFound (resource id : String)
  | validation (detail : String)
  | configuration (detail : String)
  | invalidState (detail : String)
  | externalService (detail : String)
  | storage (detail : String)
  | internal (detail : String)
deriving DecidableEq, Repr

namespace ServiceError

def name : ServiceError → String
  | notFound .. => "NotFound"
  | validation _ => "ValidationError"
  | configuration _ => "ConfigurationError"
  | invalidState _ => "InvalidState"
  | externalService _ => "ExternalServiceError"
  | storage _ => "StorageError"
  | internal _ => "InternalError"

def message : ServiceError → String
  | notFound resource id => s!"{resource} not found: {id}"
  | validation d => s!"Validation error: {d}"
  | configuration d => s!"Configuration error: {d}"
  | invalidState d => s!"Invalid state: {d}"
  | externalService d => s!"External service error: {d}"
  | storage d => s!"Storage error: {d}"
  | internal d => s!"Internal error: {d}"

/-- Nothing is known under a name that is no identifier: a fault of the question. -/
def notFoundName (resource name : String) : ServiceError :=
  validation s!"{resource} not found: {name}"

def ofRun : RunError → ServiceError
  | .invalidRequest d => validation d
  | e@(.configuration _) => configuration e.message
  | e@(.unresolvableRevision ..) => configuration e.message
  | e@(.backendUnavailable _) => externalService e.message
  | e@(.poolUnavailable _) => externalService e.message
  | .internal d => internal d

def ofStore (e : StoreError) : ServiceError := storage e.message

def ofTracker : TrackerError → ServiceError
  | .notFound id => notFoundName "Translation" id
  | e => invalidState e.message

end ServiceError

/-- What the interface tells its caller. -/
inductive ApiError where
  | notFound (detail : String)
  | badRequest (detail : String)
  | internal (detail : String)
  | unavailable (detail : String)
deriving DecidableEq, Repr

namespace ApiError

def name : ApiError → String
  | notFound _ => "NotFound"
  | badRequest _ => "BadRequest"
  | internal _ => "Internal"
  | unavailable _ => "ServiceUnavailable"

def message : ApiError → String
  | notFound d | badRequest d | internal d | unavailable d => d

/-- The number that goes with an error. -/
def code : ApiError → Nat
  | badRequest _ => 400
  | notFound _ => 404
  | internal _ => 500
  | unavailable _ => 503

def ofService : ServiceError → ApiError
  | e@(.notFound ..) => notFound e.message
  | .validation d => badRequest d
  | .invalidState d => badRequest d
  | .configuration d => unavailable d
  | .externalService d => unavailable d
  | .storage d => internal d
  | .internal d => internal d

end ApiError

end Pseudoscribe
