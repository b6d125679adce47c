/-!
# States of a task

A chunk is a task that is submitted, runs, and either succeeds or fails; a failed attempt is tried again or
the task is given up.  Until it has ended a task can be cancelled at any time.
-/

namespace Pseudoscribe

/-- Where a task stands. -/
inductive TaskState where
  | submitted
  | running
  | succeeded
  | failed
  | timedOut
  | retrying
  | abandoned
  | cancelled
deriving DecidableEq, Repr, Inhabited

namespace TaskState

/-- All states, in the order in which they are listed. -/
def all : List TaskState :=
  [submitted, running, succeeded, failed, timedOut, retrying, abandoned, cancelled]

theorem mem_all (s : TaskState) : s ∈ all := by cases s <;> simp [all]

def name : TaskState → String
  | submitted => "submitted"
  | running => "running"
  | succeeded => "succeeded"
  | failed => "failed"
  | timedOut => "timed_out"
  | retrying => "retrying"
  | abandoned => "abandoned"
  | cancelled => "cancelled"

def ofName? (name : String) : Option TaskState := all.find? (·.name == name)

/-- The task has ended. -/
def isTerminal : TaskState → Bool
  | succeeded | abandoned | cancelled => true
  | _ => false

/-- May the second state follow the first? -/
def canFollow : TaskState → TaskState → Bool
  | s, cancelled => !s.isTerminal
  | submitted, running => true
  | running, succeeded => true
  | running, failed => true
  | running, timedOut => true
  | failed, retrying => true
  | timedOut, retrying => true
  | failed, abandoned => true
  | timedOut, abandoned => true
  | retrying, submitted => true
  | _, _ => false

end TaskState

/-- A step that is not allowed. -/
structure InvalidTransition where
  source : TaskState
  target : TaskState
deriving DecidableEq, Repr

def InvalidTransition.message (t : InvalidTransition) : String :=
  s!"invalid task transition: {t.source.name} -> {t.target.name}"

/-- The states that a task went through, the last one first. -/
structure Lifecycle where
  past : List TaskState := []
  state : TaskState := .submitted
deriving DecidableEq, Repr

namespace Lifecycle

/-- The states in the order in which they were reached. -/
def history (l : Lifecycle) : List TaskState := l.past.reverse ++ [l.state]

/-- Go on to a state, if that is allowed. -/
def advance (l : Lifecycle) (next : TaskState) : Except InvalidTransition Lifecycle :=
  if l.state.canFollow next then .ok ⟨l.state :: l.past, next⟩
  else .error ⟨l.state, next⟩

end Lifecycle

end Pseudoscribe
