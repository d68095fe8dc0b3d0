import Mathlib.Data.Finset.Card
import Prodinamik.Grid.Task
import Prodinamik.Lib.LazyHeap
import Prodinamik.Lib.Table

namespace Prodinamik.Grid

open Lib

/-- The queue and the lines of its write-ahead log. -/
structure TaskQueue where
  heap : LazyHeap PrioritizedTask
  tasks : Table Task.taskId
  queuedIds : Finset String
  activeIds : Finset String
  completedIds : Finset String
  wal : List WalRecord

namespace TaskQueue

def empty : TaskQueue := ⟨.empty, .empty, ∅, ∅, ∅, []⟩

def getTask (q : TaskQueue) (id : String) : Option Task := q.tasks.get id

def queueDepth (q : TaskQueue) : Nat := q.queuedIds.card

/-- The task as enqueue leaves it. -/
def enqueued (task : Task) (uuid : String) (now : Moment) : Task :=
  { task with
    taskId := if task.taskId = "" then "task-" ++ uuid else task.taskId
    status := .queued
    createdAt := now.isoformat }

def entryOf (task : Task) (time : Int) : PrioritizedTask := ⟨task.priority, time, task.taskId⟩

def enqueueData (task : Task) (time : Int) : EnqueueData where
  taskId := task.taskId
  goal := task.goal
  priority := task.priority
  affinity := task.affinity
  context := some task.context
  tools := some task.tools
  maxSteps := some task.maxSteps
  maxRetries := some task.maxRetries
  parentTask := some task.parentTask
  timestamp := some time

def enqueue (q : TaskQueue) (task : Task) (uuid : String) (now : Moment) : TaskQueue :=
  let task := enqueued task uuid now
  { q with
    tasks := q.tasks.put task
    heap := q.heap.push (entryOf task now.time)
    queuedIds := insert task.taskId q.queuedIds
    wal := q.wal ++ [.enqueue (enqueueData task now.time)] }

def stale (q : TaskQueue) (e : PrioritizedTask) : Bool :=
  match q.tasks.get e.taskId with
  | none => true
  | some task => task.status ≠ .queued

def fits (q : TaskQueue) (affinity : String) (e : PrioritizedTask) : Bool :=
  match q.tasks.get e.taskId with
  | none => false
  | some task => affinity = "" ∨ task.affinity = "" ∨ task.affinity = affinity

def dequeue (q : TaskQueue) (affinity : String) : Option Task × TaskQueue :=
  let r := q.heap.pull q.stale (q.fits affinity)
  (r.1.bind fun e => q.tasks.get e.taskId, { q with heap := r.2 })

def assignedTo (task : Task) (nodeId : String) (now : Moment) : Task :=
  { task with
    status := .assigned
    assignedNode := nodeId
    assignedAt := some now.isoformat }

def assign (q : TaskQueue) (task : Task) (nodeId : String) (now : Moment) : TaskQueue :=
  { q with
    tasks := q.tasks.put (assignedTo task nodeId now)
    queuedIds := q.queuedIds.erase task.taskId
    activeIds := insert task.taskId q.activeIds
    wal := q.wal ++ [.acknowledge task.taskId nodeId] }

def finished (task : Task) (result : List (String × String)) (completedAt : String) : Task :=
  { task with
    status := .completed
    result := result
    completedAt := some completedAt }

def finish (q : TaskQueue) (task : Task) (result : List (String × String)) (now : Moment) :
    TaskQueue :=
  { q with
    tasks := q.tasks.put (finished task result now.isoformat)
    activeIds := q.activeIds.erase task.taskId
    completedIds := insert task.taskId q.completedIds
    wal := q.wal ++ [.complete task.taskId result now.isoformat] }

/-- The task as fail puts it back. -/
def retried (task : Task) : Task :=
  { task with
    retryCount := task.retryCount + 1
    status := .queued
    assignedNode := ""
    assignedAt := none }

/-- The record of a retry names fewer fields than that of an enqueue. -/
def retryData (task : Task) (later : Int) : EnqueueData where
  taskId := task.taskId
  goal := task.goal
  priority := task.priority
  affinity := task.affinity
  timestamp := some later

def requeue (q : TaskQueue) (task : Task) (time later : Int) : TaskQueue :=
  { q with
    tasks := q.tasks.put (retried task)
    heap := q.heap.push (entryOf task time)
    queuedIds := insert task.taskId q.queuedIds
    activeIds := q.activeIds.erase task.taskId
    wal := q.wal ++ [.enqueue (retryData task later)] }

def givenUp (task : Task) (error completedAt : String) : Task :=
  { task with
    status := .failed
    error := some error
    completedAt := some completedAt }

def giveUp (q : TaskQueue) (task : Task) (error : String) (now : Moment) : TaskQueue :=
  { q with
    tasks := q.tasks.put (givenUp task error now.isoformat)
    activeIds := q.activeIds.erase task.taskId
    completedIds := insert task.taskId q.completedIds
    wal := q.wal ++ [.fail task.taskId error now.isoformat] }

def dropped (task : Task) : Task := { task with status := .cancelled }

def drop (q : TaskQueue) (task : Task) : TaskQueue :=
  { q with
    tasks := q.tasks.put (dropped task)
    queuedIds := q.queuedIds.erase task.taskId
    activeIds := q.activeIds.erase task.taskId
    completedIds := insert task.taskId q.completedIds
    wal := q.wal ++ [.cancel task.taskId] }

/-! The operations on a task return False where the result here is none. -/

def acknowledge (q : TaskQueue) (id nodeId : String) (now : Moment) : Option TaskQueue :=
  (q.tasks.get id).map fun task => q.assign task nodeId now

def complete (q : TaskQueue) (id : String) (result : List (String × String)) (now : Moment) :
    Option TaskQueue :=
  (q.tasks.get id).map fun task => q.finish task result now

/-- The time of the record of a retry is a second reading of the clock. -/
def fail (q : TaskQueue) (id error : String) (retry : Bool) (now : Moment) (later : Int) :
    Option TaskQueue :=
  (q.tasks.get id).map fun task =>
    if retry ∧ (task.retryCount : Int) < task.maxRetries then q.requeue task now.time later
    else q.giveUp task error now

def cancel (q : TaskQueue) (id : String) : Option TaskQueue :=
  (q.tasks.get id).map fun task => q.drop task

def enqueueBatch (q : TaskQueue) : List (Task × String × Moment) → TaskQueue
  | [] => q
  | (task, uuid, now) :: rest => (q.enqueue task uuid now).enqueueBatch rest

/-- The loop of cancel_all over the tasks that were there when it began. -/
def cancelAllFrom (statusFilter : Option TaskStatus) : List Task → TaskQueue → TaskQueue
  | [], q => q
  | t :: ts, q =>
      match q.tasks.get t.taskId with
      | none => cancelAllFrom statusFilter ts q
      | some task =>
          if (∃ s ∈ statusFilter, task.status ≠ s) ∨ task.status.Terminal then
            cancelAllFrom statusFilter ts q
          else cancelAllFrom statusFilter ts ((q.cancel task.taskId).getD q)

def cancelAll (q : TaskQueue) (statusFilter : Option TaskStatus) : TaskQueue :=
  cancelAllFrom statusFilter q.tasks.rows q

def ListedBefore (a b : Task) : Prop :=
  toLex (a.priority, a.createdAt) ≤ toLex (b.priority, b.createdAt)

instance : DecidableRel ListedBefore := fun a b =>
  inferInstanceAs (Decidable (toLex (a.priority, a.createdAt) ≤ toLex (b.priority, b.createdAt)))

def listTasks (q : TaskQueue) (status : TaskStatus) (limit : Nat) : List Task :=
  ((q.tasks.rows.filter fun t => t.status = status).insertionSort ListedBefore).take limit

/-! Replay of the log. -/

/-- The task Task(**clean_data) builds. -/
def taskOfData (data : EnqueueData) (now : Moment) : Task where
  taskId := data.taskId
  goal := data.goal
  priority := data.priority
  affinity := data.affinity
  context := data.context.getD []
  tools := data.tools.getD []
  maxSteps := data.maxSteps.getD 20
  maxRetries := data.maxRetries.getD 3
  retryCount := data.retryCount.getD 0
  parentTask := data.parentTask.getD ""
  createdAt := now.isoformat

def settle (q : TaskQueue) (task : Task) : TaskQueue :=
  { q with
    tasks := q.tasks.put task
    queuedIds := q.queuedIds.erase task.taskId
    activeIds := q.activeIds.erase task.taskId
    completedIds := insert task.taskId q.completedIds }

def applyRecord (now : Moment) (q : TaskQueue) : WalRecord → TaskQueue
  | .enqueue data =>
      { q with
        tasks := q.tasks.put (taskOfData data now)
        heap := q.heap.push ⟨data.priority, data.timestamp.getD now.time, data.taskId⟩
        queuedIds := insert data.taskId q.queuedIds }
  | .acknowledge id nodeId =>
      match q.tasks.get id with
      | none => q
      | some task =>
          { q with
            tasks := q.tasks.put { task with status := .assigned, assignedNode := nodeId }
            queuedIds := q.queuedIds.erase id
            activeIds := insert id q.activeIds }
  | .complete id result completedAt =>
      match q.tasks.get id with
      | none => q
      | some task => q.settle (finished task result completedAt)
  | .fail id error completedAt =>
      match q.tasks.get id with
      | none => q
      | some task => q.settle (givenUp task error completedAt)
  | .cancel id =>
      match q.tasks.get id with
      | none => q
      | some task => q.settle (dropped task)

/-- _replay_wal; each line is read at a moment of its own. -/
def replay (clock : Nat → Moment) (wal : List WalRecord) : TaskQueue :=
  wal.zipIdx.foldl (fun q r => q.applyRecord (clock r.2) r.1) empty

/-- A new TaskQueue on a log that is there. -/
def init (clock : Nat → Moment) (wal : List WalRecord) : TaskQueue :=
  { replay clock wal with wal := wal }

def compactData (task : Task) : EnqueueData where
  taskId := task.taskId
  goal := task.goal
  priority := task.priority
  affinity := task.affinity
  context := some task.context
  tools := some task.tools
  maxSteps := some task.maxSteps
  maxRetries := some task.maxRetries
  retryCount := some task.retryCount
  parentTask := some task.parentTask

/-- The log close leaves; it is empty if no task is left. -/
def compactWal (q : TaskQueue) : List WalRecord :=
  (q.tasks.rows.filter fun t => t.status.Open).map fun t => .enqueue (compactData t)

/-- The operations of a queue in use; dequeue's result is left to the caller. -/
inductive Op
  | enqueue (task : Task) (uuid : String) (now : Moment)
  | dequeue (affinity : String)
  | acknowledge (id nodeId : String) (now : Moment)
  | complete (id : String) (result : List (String × String)) (now : Moment)
  | fail (id error : String) (retry : Bool) (now : Moment) (later : Int)
  | cancel (id : String)
  deriving DecidableEq, Repr

def step (q : TaskQueue) : Op → TaskQueue
  | .enqueue task uuid now => q.enqueue task uuid now
  | .dequeue affinity => (q.dequeue affinity).2
  | .acknowledge id nodeId now => (q.acknowledge id nodeId now).getD q
  | .complete id result now => (q.complete id result now).getD q
  | .fail id error retry now later => (q.fail id error retry now later).getD q
  | .cancel id => (q.cancel id).getD q

theorem step_of_unknown {q : TaskQueue} {id : String} (h : q.tasks.get id = none) :
    (∀ nodeId now, q.step (.acknowledge id nodeId now) = q) ∧
      (∀ result now, q.step (.complete id result now) = q) ∧
      (∀ error retry now later, q.step (.fail id error retry now later) = q) ∧
      q.step (.cancel id) = q := by
  simp [step, acknowledge, complete, fail, cancel, h]

theorem step_of_known {q : TaskQueue} {id : String} {task : Task}
    (h : q.tasks.get id = some task) :
    (∀ nodeId now, q.step (.acknowledge id nodeId now) = q.assign task nodeId now) ∧
      (∀ result now, q.step (.complete id result now) = q.finish task result now) ∧
      (∀ error retry now later, q.step (.fail id error retry now later) =
        if retry ∧ (task.retryCount : Int) < task.maxRetries then q.requeue task now.time later
        else q.giveUp task error now) ∧
      q.step (.cancel id) = q.drop task := by
  simp [step, acknowledge, complete, fail, cancel, h]

def statusOf (q : TaskQueue) (id : String) : Option TaskStatus := (q.getTask id).map Task.status

end TaskQueue

end Prodinamik.Grid
