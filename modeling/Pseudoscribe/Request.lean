import Pseudoscribe.Error
import Pseudoscribe.Language
import Pseudoscribe.Options
import Pseudoscribe.RequestId

/-!
# Requests
-/

namespace Pseudoscribe

/-- A request that was checked. -/
structure Request where
  id : RequestId
  source : String
  language : Language
  options : Options
deriving DecidableEq, Repr

namespace Request

/-- Check a request; a fault of the language is reported before one of the options. -/
def make (id : RequestId) (source language : String) (options : Options) : Except RunError Request :=
  match Language.ofName language with
  | .error e => .error (.invalidRequest e.message)
  | .ok l =>
    match options.validate with
    | .error e => .error (.invalidRequest e.message)
    | .ok () => .ok ⟨id, source, l, options⟩

end Request

end Pseudoscribe
