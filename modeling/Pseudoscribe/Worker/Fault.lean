/-!
# Faults of workers

Why a worker cannot be used, or cannot be used any longer.
-/

namespace Pseudoscribe

/-- How a process ended. -/
inductive ProcessEnd where
  | code (number : Nat)
  | signal (number : Nat)
deriving DecidableEq, Repr

namespace ProcessEnd

/-- The names of signals. -/
def signals : List (Nat × String) :=
  [(1, "SIGHUP"), (2, "SIGINT"), (3, "SIGQUIT"), (6, "SIGABRT"), (9, "SIGKILL"), (10, "SIGUSR1"),
    (12, "SIGUSR2"), (13, "SIGPIPE"), (14, "SIGALRM"), (15, "SIGTERM")]

/-- The end of a process that was stopped by force. -/
def killed : ProcessEnd := signal 9

/-- The one number in which the system tells how a process ended. -/
def word : ProcessEnd → Nat
  | code n => n * 256
  | signal n => n

def text : ProcessEnd → String
  | code n => s!"exit status: {n}"
  | signal n =>
    match signals.lookup n with
    | some name => s!"signal: {n} ({name})"
    | none => s!"signal: {n}"

end ProcessEnd

/-- Why a worker cannot be used. -/
inductive WorkerFault where
  | spawn (detail : String)
  | startup (detail : String)
  | io (detail : String)
  /-- it said something that it must not say -/
  | protocol (detail : String)
  | exited (detail : String)
  | panicked (detail : String)
deriving DecidableEq, Repr

namespace WorkerFault

def name : WorkerFault → String
  | spawn _ => "Spawn"
  | startup _ => "Startup"
  | io _ => "Io"
  | protocol _ => "Protocol"
  | exited _ => "Exited"
  | panicked _ => "Panicked"

def message : WorkerFault → String
  | spawn d => s!"spawn failed: {d}"
  | startup d => s!"startup failed: {d}"
  | io d => s!"io error: {d}"
  | protocol d => s!"protocol error: {d}"
  | exited d => s!"worker exited: {d}"
  | panicked d => s!"worker panicked: {d}"

end WorkerFault

end Pseudoscribe
