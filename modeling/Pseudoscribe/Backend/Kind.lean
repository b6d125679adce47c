/-!
# Kinds of backends
-/

namespace Pseudoscribe

/-- Where a model runs. -/
inductive BackendKind where
  /-- in the worker itself, from files -/
  | embedded
  /-- in a service that is asked over the network -/
  | remote
deriving DecidableEq, Repr, Inhabited

namespace BackendKind

def all : List BackendKind := [embedded, remote]

def name : BackendKind → String
  | embedded => "local"
  | remote => "remote"

def ofName? : String → Option BackendKind
  | "local" => some embedded
  | "remote" => some remote
  | _ => none

theorem ofName?_name (k : BackendKind) : ofName? k.name = some k := by cases k <;> rfl

end BackendKind

end Pseudoscribe
