import Pseudoscribe.Config.Layers
import Pseudoscribe.Service.Routes
import Pseudoscribe.Worker.Link

/-!
# Starting the service

The service starts from its configuration in a fixed order: its workers, its store, its backend.  The first
that cannot be had stops it, with words that say which.
-/

namespace Pseudoscribe

/-- Why the service does not start. -/
inductive StartFault where
  | config (fault : Config.LoadError)
  | pool (program : String) (fault : PoolError)
  | store (fault : StoreError)
  | backend (fault : RunError)
deriving DecidableEq, Repr

def StartFault.message : StartFault → String
  | config e => s!"Failed to load config: {e.message}"
  | pool program e => s!"Failed to start execution pool ({program}): {e.message}"
  | store e => s!"Failed to open translation cache: {e.message}"
  | backend e => s!"Model backend check failed: {e.message}"

namespace Service

/-- The program of a worker when none is configured. -/
def workerProgram : String := "quill-worker"

/-- Does a program make a worker in time? -/
def launches (c : Config) : Except PoolError Unit :=
  match c.pool.program with
  | none => .ok ()
  | some program =>
    match (Link.peerOf program []).bind (Link.ofPeer · (.ofSeconds c.pool.startupSeconds)) with
    | .ok _ => .ok ()
    | .error fault => .error (.notSpawned s!"slot 0: {fault.message}")

/-- The service of a configuration. -/
def ofConfig (files : Files) (c : Config) : Except StartFault Service := do
  let program := c.pool.program.getD workerProgram
  let pool ← (Pool.start c.workerCount c.pool.queueCapacity).mapError (.pool program)
  (launches c).mapError (.pool program)
  let store ←
    if c.store.enabled then
      ((ResultStore.load c.store.maxEntries []).mapError StartFault.store).map some
    else pure none
  let engine : Engine := { crew := .ofPool pool { registry := .builtIn, files }, profiles := c.profiles }
  match engine.verify c.options.backend c.options.revision with
  | (.error e, _) => .error (.backend e)
  | (.ok _, engine) =>
    pure { engine, store, language := c.language, options := c.options }

/-- Start the service from the files of the present directory and the environment. -/
def start (files : Files) (env : List (String × String)) : Except StartFault Service := do
  let c ← (Config.load files env none).mapError .config
  ofConfig files c

end Service

end Pseudoscribe
