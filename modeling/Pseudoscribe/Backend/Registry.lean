import Pseudoscribe.Backend.Embedded
import Pseudoscribe.Backend.Remote
import Pseudoscribe.Backend.Scripted
import Pseudoscribe.Number.Total

/-!
# Making backends

A registry says how the backends of each kind are made.  A process makes a backend once and finds it again by
the identity of its description, so that a local model is read from its files only once.
-/

namespace Pseudoscribe

/-- A backend that is ready to be asked. -/
inductive Backend where
  | embedded (model : EmbeddedBackend)
  | remote (model : RemoteBackend)
  | scripted
deriving Repr

/-- How backends are made. -/
inductive Registry where
  /-- local models from files and remote ones over the network -/
  | builtIn
  /-- not at all -/
  | empty
  /-- one scripted backend takes the place of every local model -/
  | scripted (script : Script)
deriving Repr

namespace Registry

/-- Make the backend of a description. -/
def create : Registry → BackendSpec → Except BackendError Backend
  | builtIn, .embedded settings => .ok (.embedded { settings })
  | builtIn, .remote settings => (RemoteBackend.ofSettings settings).map Backend.remote
  | scripted _, .embedded _ => .ok .scripted
  | scripted _, .remote _ => .error (.unregistered .remote)
  | empty, spec => .error (.unregistered spec.kind)

def script : Registry → Script
  | scripted s => s
  | _ => {}

end Registry

/-- The backends of a process. -/
structure Backends where
  registry : Registry
  files : Files
  /-- what comes back when a remote model is asked -/
  network : RemoteBackend → RemoteReply := fun _ => .unreachable
  /-- the backends made so far, by identity -/
  made : List (String × Backend) := []
  /-- how often the scripted backend was asked for each chunk -/
  calls : List (Nat × Nat) := []

namespace Backends

/-- Keep a backend under an identity. -/
def keep (bs : Backends) (identity : String) (backend : Backend) : Backends :=
  { bs with made := (identity, backend) :: bs.made.filter (·.1 != identity) }

/-- The backend of a description: the one that was made for its identity, or a new one. -/
def create (bs : Backends) (spec : BackendSpec) : Except BackendError Backend × Backends :=
  match bs.made.lookup spec.identity with
  | some backend => (.ok backend, bs)
  | none =>
    match bs.registry.create spec with
    | .ok backend => (.ok backend, bs.keep spec.identity backend)
    | .error e => (.error e, bs)

def callsFor (bs : Backends) (chunk : Nat) : Nat := (bs.calls.lookup chunk).getD 0

def totalCalls (bs : Backends) : Nat := total (bs.calls.map (·.2))

def countCall (bs : Backends) (chunk : Nat) : Backends :=
  { bs with
    calls := (chunk, bs.callsFor chunk + 1) :: bs.calls.filter (·.1 != chunk) }

/-- Can the backend of a description be used?  What it can do, if so. -/
def check (bs : Backends) (spec : BackendSpec) : Except BackendError Capabilities × Backends :=
  match bs.create spec with
  | (.error e, bs) => (.error e, bs)
  | (.ok (.embedded m), bs) =>
    match m.load bs.files with
    | (.ok manifest, m) => (.ok manifest.capabilities, bs.keep spec.identity (.embedded m))
    | (.error e, _) => (.error e, bs)
  | (.ok (.remote m), bs) => (m.check.map fun _ => m.capabilities, bs)
  | (.ok .scripted, bs) => (.ok Script.capabilities, bs)

/-- The words with which a worker breaks down whose model names more seconds than a length of time can
have. -/
def timeTooLong : String :=
  "cannot convert float seconds to Duration: value is either too big or NaN"

/-- What a worker has to do for the code of a chunk, within a time. -/
def work (bs : Backends) (spec : BackendSpec) (chunk : Chunk) (language : Language)
    (timeout : Duration) : Work × Backends :=
  match bs.create spec with
  | (.error e, bs) =>
    let provenance : Provenance :=
      { model := spec.model, revision := spec.revision, backend := spec.kind }
    (.done (.ofError s!"backend unavailable: {e.message}" provenance), bs)
  | (.ok (.embedded m), bs) =>
    let (a, m) := m.answer bs.files chunk language
    (.done a, bs.keep spec.identity (.embedded m))
  | (.ok (.remote m), bs) =>
    if !m.capabilities.supports language then
      (.done (m.answer timeout .unreachable chunk language), bs)
    else
      match m.timeout? timeout with
      | none => (⟨some 0, .error timeTooLong⟩, bs)
      | some time =>
        match bs.network m with
        | .silent => (⟨some time.ticks, .ok (m.answer time .silent chunk language)⟩, bs)
        | reply => (.done (m.answer time reply chunk language), bs)
  | (.ok .scripted, bs) =>
    let bs := bs.countCall chunk.index
    (bs.registry.script.work (bs.callsFor chunk.index) chunk language, bs)

end Backends

end Pseudoscribe
