import Prodinamik.Grid.Scheduler

namespace Prodinamik.Grid

open Lib

/-- The parts of a started coordinator; its registry is not kept on disk. -/
structure CoordinatorNode where
  maxTaskRetries : Int
  taskQueue : TaskQueue
  agentRegistry : AgentRegistry

/-- What poll_tasks tells a worker of a task. -/
structure PolledTask where
  taskId : String
  goal : String
  context : List (String × String)
  tools : List String
  maxSteps : Int
  priority : Int
  deriving DecidableEq, Repr

/-- The arguments of submit_task. -/
structure Submission where
  goal : String
  priority : Int := 2
  affinity : String := ""
  context : List (String × String) := []
  tools : List String := []
  maxSteps : Int := 20
  parentTask : String := ""
  deriving DecidableEq, Repr

structure CoordinatorConfig where
  heartbeatTtl : Int := 10
  maxTaskRetries : Int := 3
  deriving DecidableEq, Repr

namespace CoordinatorNode

/-- start on the log a coordinator before it has left. -/
def start (config : CoordinatorConfig) (clock : Nat → Moment) (wal : List WalRecord) :
    CoordinatorNode :=
  ⟨config.maxTaskRetries, .init clock wal, .new config.heartbeatTtl⟩

def submittedTask (c : CoordinatorNode) (s : Submission) (uuid : String) : Task where
  taskId := "task-" ++ uuid
  goal := s.goal
  priority := s.priority
  affinity := s.affinity
  context := s.context
  tools := s.tools
  maxSteps := s.maxSteps
  parentTask := s.parentTask
  maxRetries := c.maxTaskRetries

def tryAssign (c : CoordinatorNode) (ticks : Nat → Tick) : CoordinatorNode :=
  { c with taskQueue := (Scheduler.tryAssign c.agentRegistry ticks c.taskQueue).2 }

def submitTask (c : CoordinatorNode) (s : Submission) (uuid : String) (now : Moment)
    (ticks : Nat → Tick) : CoordinatorNode :=
  { c with taskQueue := c.taskQueue.enqueue (c.submittedTask s uuid) uuid now }.tryAssign ticks

def noteHeartbeat (r : AgentRegistry) (nodeId : String) (data : HeartbeatData) (now : Int) :
    AgentRegistry :=
  (r.heartbeat nodeId data now).getD
    (r.registerNode nodeId (some (data.capabilities.getD [])) (data.maxWorkers.getD 3))

def heartbeat (c : CoordinatorNode) (nodeId : String) (data : HeartbeatData) (now : Int)
    (ticks : Nat → Tick) : CoordinatorNode :=
  { c with agentRegistry := noteHeartbeat c.agentRegistry nodeId data now }.tryAssign ticks

def polled (task : Task) : PolledTask where
  taskId := task.taskId
  goal := task.goal
  context := task.context
  tools := task.tools
  maxSteps := task.maxSteps
  priority := task.priority

/-- A dequeue by the first capability of the node, then one without. -/
def dequeueFor (node : NodeInfo) (q : TaskQueue) : Option Task × TaskQueue :=
  match q.dequeue (node.capabilities.headD "") with
  | (some task, q) => (some task, q)
  | (none, q) => q.dequeue ""

/-- The loop of poll_tasks with the iterations it has left. -/
def pollLoop (node : NodeInfo) (clock : Nat → Moment) : Nat → TaskQueue → List Task × TaskQueue
  | 0, q => ([], q)
  | k + 1, q =>
      match dequeueFor node q with
      | (none, q) => ([], q)
      | (some task, q) =>
          let r := pollLoop node clock k
            ((q.acknowledge task.taskId node.nodeId (clock k)).getD q)
          (task :: r.1, r.2)

def pollTasks (c : CoordinatorNode) (nodeId : String) (maxTasks : Int) (clock : Nat → Moment) :
    List PolledTask × CoordinatorNode :=
  match c.agentRegistry.getNode nodeId with
  | none => ([], c)
  | some node =>
      let r := pollLoop node clock (min maxTasks (max 0 (node.maxWorkers - node.activeWorkers))).toNat
        c.taskQueue
      (r.1.map polled, { c with taskQueue := r.2 })

/-- report_result returns False where the result here is none. -/
def reportResult (c : CoordinatorNode) (taskId : String) (success : Bool)
    (result : List (String × String)) (error : String) (now : Moment) (later : Int) :
    Option CoordinatorNode :=
  (if success then c.taskQueue.complete taskId result now
    else c.taskQueue.fail taskId error true now later).map fun q => { c with taskQueue := q }

def cancelTask (c : CoordinatorNode) (taskId : String) : Option CoordinatorNode :=
  (c.taskQueue.cancel taskId).map fun q => { c with taskQueue := q }

/-- What the reassignment pass does with one of the tasks it lists. -/
def reassignTask (registry : AgentRegistry) (q : TaskQueue) (taskId : String) (now : Moment)
    (later : Int) : TaskQueue :=
  match q.tasks.get taskId with
  | none => q
  | some task =>
      match registry.getNode task.assignedNode with
      | none => q
      | some node =>
          if task.assignedNode ≠ "" ∧ node.isAlive registry.heartbeatTtl now.time = false then
            let q := { q with tasks := q.tasks.put { task with assignedNode := "" } }
            (q.fail taskId "Node lost" true now later).getD q
          else q

/-- One pass of _task_reassign_loop. -/
def reassignPass (c : CoordinatorNode) (clock : Nat → Moment × Int) : CoordinatorNode :=
  { c with
    taskQueue := ((c.taskQueue.listTasks .assigned 50).zipIdx).foldl
      (fun q t => reassignTask c.agentRegistry q t.1.taskId (clock t.2).1 (clock t.2).2)
      c.taskQueue }

/-- What happens to a coordinator. A crash leaves the log as it is, stop
compacts it; a new coordinator starts on what is left. -/
inductive Event
  | submitTask (s : Submission) (uuid : String) (now : Moment) (ticks : Nat → Tick)
  | heartbeat (nodeId : String) (data : HeartbeatData) (now : Int) (ticks : Nat → Tick)
  | pollTasks (nodeId : String) (maxTasks : Int) (clock : Nat → Moment)
  | reportResult (taskId nodeId : String) (success : Bool) (result : List (String × String))
      (error : String) (now : Moment) (later : Int)
  | cancelTask (taskId : String)
  | reassign (clock : Nat → Moment × Int)
  | crash (config : CoordinatorConfig) (clock : Nat → Moment)
  | stop (config : CoordinatorConfig) (clock : Nat → Moment)

def step (c : CoordinatorNode) : Event → CoordinatorNode
  | .submitTask s uuid now ticks => c.submitTask s uuid now ticks
  | .heartbeat nodeId data now ticks => c.heartbeat nodeId data now ticks
  | .pollTasks nodeId maxTasks clock => (c.pollTasks nodeId maxTasks clock).2
  | .reportResult taskId _ success result error now later =>
      (c.reportResult taskId success result error now later).getD c
  | .cancelTask taskId => (c.cancelTask taskId).getD c
  | .reassign clock => c.reassignPass clock
  | .crash config clock => start config clock c.taskQueue.wal
  | .stop config clock => start config clock c.taskQueue.compactWal

/-! The calls make operations of the queue only. -/

theorem tryAssign_reaches (registry : AgentRegistry) (ticks : Nat → Tick) (q : TaskQueue) :
    q.Reaches (Scheduler.tryAssign registry ticks q).2 :=
  ⟨_, Scheduler.assignLoop_snd registry ticks _ q⟩

theorem dequeueFor_reaches (node : NodeInfo) (q : TaskQueue) :
    q.Reaches (dequeueFor node q).2 := by
  have hfirst : q.step (.dequeue (node.capabilities.headD "")) =
      (q.dequeue (node.capabilities.headD "")).2 := rfl
  rw [dequeueFor]
  cases hdequeue : q.dequeue (node.capabilities.headD "") with
  | mk found q' =>
      rw [hdequeue] at hfirst
      cases found with
      | some task => exact ⟨[.dequeue (node.capabilities.headD "")], hfirst.symm⟩
      | none =>
          refine ⟨[.dequeue (node.capabilities.headD ""), .dequeue ""], ?_⟩
          rw [List.foldl_cons, hfirst]
          rfl

theorem pollLoop_reaches (node : NodeInfo) (clock : Nat → Moment) (k : Nat) (q : TaskQueue) :
    q.Reaches (pollLoop node clock k q).2 := by
  induction k generalizing q with
  | zero => exact .refl q
  | succ k ih =>
      obtain ⟨ops, hops⟩ := dequeueFor_reaches node q
      rw [pollLoop]
      cases hdequeue : dequeueFor node q with
      | mk found q' =>
          rw [hdequeue] at hops
          cases found with
          | none => exact ⟨ops, hops⟩
          | some task =>
              obtain ⟨later, hlater⟩ :=
                ih (q'.step (.acknowledge task.taskId node.nodeId (clock k)))
              refine ⟨ops ++ .acknowledge task.taskId node.nodeId (clock k) :: later, ?_⟩
              rw [List.foldl_append, List.foldl_cons, ← hops]
              exact hlater

theorem submitTask_reaches (c : CoordinatorNode) (s : Submission) (uuid : String) (now : Moment)
    (ticks : Nat → Tick) : c.taskQueue.Reaches (c.submitTask s uuid now ticks).taskQueue :=
  .step (.enqueue (c.submittedTask s uuid) uuid now) (tryAssign_reaches _ ticks _)

theorem pollTasks_reaches (c : CoordinatorNode) (nodeId : String) (maxTasks : Int)
    (clock : Nat → Moment) : c.taskQueue.Reaches (c.pollTasks nodeId maxTasks clock).2.taskQueue := by
  rw [pollTasks]
  cases c.agentRegistry.getNode nodeId with
  | none => exact .refl _
  | some node => exact pollLoop_reaches node clock _ _

/-- The operation report_result makes of the queue. -/
def reportOp (taskId : String) (success : Bool) (result : List (String × String)) (error : String)
    (now : Moment) (later : Int) : TaskQueue.Op :=
  if success then .complete taskId result now else .fail taskId error true now later

theorem reportResult_eq (c : CoordinatorNode) (taskId : String) (success : Bool)
    (result : List (String × String)) (error : String) (now : Moment) (later : Int) :
    (c.reportResult taskId success result error now later).getD c =
      { c with taskQueue := c.taskQueue.step (reportOp taskId success result error now later) } := by
  rw [reportResult]
  cases success with
  | true =>
      cases hq : c.taskQueue.complete taskId result now <;> simp [hq, reportOp, TaskQueue.step]
  | false =>
      cases hq : c.taskQueue.fail taskId error true now later <;>
        simp [hq, reportOp, TaskQueue.step]

end CoordinatorNode

end Prodinamik.Grid
