import Mathlib.Data.Prod.Lex
import Mathlib.Data.String.Basic

namespace Prodinamik.Grid

inductive TaskStatus
  | queued
  | assigned
  | running
  | completed
  | failed
  | cancelled
  | timeout
  deriving DecidableEq, Repr

/-- A heap entry; one with a lower priority number is more urgent. -/
structure PrioritizedTask where
  priority : Int
  timestamp : Int
  taskId : String
  deriving DecidableEq, Repr

namespace PrioritizedTask

/-- The fields in the order in which the dataclass compares them. -/
def rank (e : PrioritizedTask) : Int ×ₗ Int ×ₗ String :=
  toLex (e.priority, toLex (e.timestamp, e.taskId))

theorem rank_injective : Function.Injective rank := by
  rintro ⟨p, t, i⟩ ⟨p', t', i'⟩ h
  cases h
  rfl

instance : LinearOrder PrioritizedTask := LinearOrder.lift' rank rank_injective

end PrioritizedTask

/-- A task in the queue. A value of a dict stands by its JSON text. -/
structure Task where
  taskId : String := ""
  goal : String := ""
  priority : Int := 2
  affinity : String := ""
  context : List (String × String) := []
  tools : List String := []
  maxSteps : Int := 20
  status : TaskStatus := .queued
  assignedNode : String := ""
  createdAt : String := ""
  assignedAt : Option String := none
  completedAt : Option String := none
  result : List (String × String) := []
  error : Option String := none
  parentTask : String := ""
  subtasks : List String := []
  maxRetries : Int := 3
  retryCount : Nat := 0
  deriving DecidableEq, Repr

def TaskStatus.Terminal (s : TaskStatus) : Prop :=
  s = .completed ∨ s = .failed ∨ s = .cancelled ∨ s = .timeout

instance : DecidablePred TaskStatus.Terminal := fun s =>
  inferInstanceAs (Decidable (s = .completed ∨ s = .failed ∨ s = .cancelled ∨ s = .timeout))

/-- The statuses close keeps in the log. -/
def TaskStatus.Open (s : TaskStatus) : Prop := s = .queued ∨ s = .assigned ∨ s = .running

instance : DecidablePred TaskStatus.Open := fun s =>
  inferInstanceAs (Decidable (s = .queued ∨ s = .assigned ∨ s = .running))

/-- What time.time() and datetime.now().isoformat() read. -/
structure Moment where
  time : Int
  isoformat : String
  deriving DecidableEq, Repr, Inhabited

/-- The data of an enqueue record; a key that is not written is none. -/
structure EnqueueData where
  taskId : String
  goal : String
  priority : Int
  affinity : String
  context : Option (List (String × String)) := none
  tools : Option (List String) := none
  maxSteps : Option Int := none
  maxRetries : Option Int := none
  retryCount : Option Nat := none
  parentTask : Option String := none
  timestamp : Option Int := none
  deriving DecidableEq, Repr

/-- A line of the write-ahead log. -/
inductive WalRecord
  | enqueue (data : EnqueueData)
  | acknowledge (taskId nodeId : String)
  | complete (taskId : String) (result : List (String × String)) (completedAt : String)
  | fail (taskId error completedAt : String)
  | cancel (taskId : String)
  deriving DecidableEq, Repr

end Prodinamik.Grid
