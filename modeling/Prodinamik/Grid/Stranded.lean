import Prodinamik.Grid.Coordinator

namespace Prodinamik.Grid

open Lib

namespace TaskQueue

/-- No record leaves a task running or timed out. -/
theorem walStatus_ne (wal : List WalRecord) (id : String) :
    walStatus wal id ≠ some .running ∧ walStatus wal id ≠ some .timeout := by
  induction wal using List.reverseRecOn with
  | nil => simp [walStatus]
  | append_singleton wal r ih =>
      rw [walStatus_concat]
      split
      case isFalse => exact ih
      case isTrue => cases r <;> cases walStatus wal id <;> simp [WalRecord.status]

end TaskQueue

namespace CoordinatorNode

/-- What a restart owes to the tasks that have not ended: a later dequeue
returns them, if not at once then after the pass over dead nodes. -/
def Recovered (c : CoordinatorNode) (clock : Nat → Moment × Int) : Prop :=
  ∀ id, ∀ s ∈ c.taskQueue.statusOf id, s ≠ .completed → s ≠ .failed → s ≠ .cancelled →
    c.taskQueue.Served id ∨ (c.reassignPass clock).taskQueue.Served id

theorem reassignTask_of_getNode_none {registry : AgentRegistry}
    (h : ∀ nodeId, registry.getNode nodeId = none) (q : TaskQueue) (taskId : String) (now : Moment)
    (later : Int) : reassignTask registry q taskId now later = q := by
  rw [reassignTask]
  cases q.tasks.get taskId with
  | none => rfl
  | some task =>
      simp only
      rw [h]

/-- The pass finds no dead node where no node is registered. -/
theorem reassignPass_of_getNode_none {c : CoordinatorNode}
    (h : ∀ nodeId, c.agentRegistry.getNode nodeId = none) (clock : Nat → Moment × Int) :
    c.reassignPass clock = c := by
  have hloop : ∀ (ts : List (Task × Nat)) (q : TaskQueue),
      ts.foldl (fun q t => reassignTask c.agentRegistry q t.1.taskId (clock t.2).1 (clock t.2).2) q =
        q := by
    intro ts
    induction ts with
    | nil => exact fun q => rfl
    | cons t ts ih =>
        intro q
        rw [List.foldl_cons, reassignTask_of_getNode_none h, ih]
  rw [reassignPass, hloop]

theorem recovered_start_iff (config : CoordinatorConfig) (clock : Nat → Moment)
    (wal : List WalRecord) (pass : Nat → Moment × Int) :
    (start config clock wal).Recovered pass ↔
      ∀ id, TaskQueue.walStatus wal id ≠ some .assigned := by
  have hpass : (start config clock wal).reassignPass pass = start config clock wal :=
    reassignPass_of_getNode_none (fun _ => rfl) pass
  have hstatus : ∀ id, (start config clock wal).taskQueue.statusOf id =
      TaskQueue.walStatus wal id := TaskQueue.statusOf_replay clock wal
  have hserved : ∀ id, ∀ s ∈ TaskQueue.walStatus wal id,
      ((start config clock wal).taskQueue.Served id ↔ s = .queued) := by
    intro id s hs
    have hheld : 0 < (start config clock wal).taskQueue.held id := by
      have hcount := TaskQueue.countP_replay_heap clock id wal
      have hpos := (TaskQueue.isSome_walStatus wal id).mp (by rw [hs]; rfl)
      rw [← hcount] at hpos
      exact hpos
    rw [TaskQueue.served_iff hheld, hstatus, hs, Option.some.injEq]
  refine forall_congr' fun id => ?_
  rw [hstatus, hpass]
  constructor
  · intro h hassigned
    have := h .assigned hassigned (fun h => by cases h) (fun h => by cases h) (fun h => by cases h)
    rw [or_self, hserved id .assigned hassigned] at this
    cases this
  · intro h s hs hcompleted hfailed hcancelled
    have hne := TaskQueue.walStatus_ne wal id
    rw [hs] at hne h
    rw [or_self, hserved id s hs]
    cases s with
    | queued => rfl
    | assigned => exact absurd rfl h
    | running => exact absurd rfl hne.1
    | completed => exact absurd rfl hcompleted
    | failed => exact absurd rfl hfailed
    | cancelled => exact absurd rfl hcancelled
    | timeout => exact absurd rfl hne.2

/-- The node of a task is cleared before the task fails. -/
theorem logged_clear {q : TaskQueue} (h : q.Logged) {taskId : String} {task : Task}
    (hget : q.tasks.get taskId = some task) :
    ({ q with tasks := q.tasks.put { task with assignedNode := "" } } : TaskQueue).Logged := by
  intro id
  rw [TaskQueue.statusOf_put (u := { task with assignedNode := "" }) rfl]
  split
  case isTrue hid =>
    rw [← h id, hid, TaskQueue.statusOf_of_get ((Table.key_of_get hget).symm ▸ hget)]
  case isFalse => exact h id

theorem reassignTask_logged {registry : AgentRegistry} {q : TaskQueue} (h : q.Logged)
    (taskId : String) (now : Moment) (later : Int) :
    (reassignTask registry q taskId now later).Logged := by
  rw [reassignTask]
  cases hget : q.tasks.get taskId with
  | none => exact h
  | some task =>
      simp only
      cases registry.getNode task.assignedNode with
      | none => exact h
      | some node =>
          simp only
          split
          case isFalse => exact h
          case isTrue => exact (logged_clear h hget).step (.fail taskId "Node lost" true now later)

theorem cancelTask_eq (c : CoordinatorNode) (taskId : String) :
    (c.step (.cancelTask taskId)).taskQueue = c.taskQueue.step (.cancel taskId) := by
  rw [step, cancelTask]
  cases hq : c.taskQueue.cancel taskId <;> simp [hq, TaskQueue.step]

/-- What each reassignment keeps the pass keeps. -/
theorem reassignPass_induction {motive : TaskQueue → Prop} {c : CoordinatorNode}
    (hstart : motive c.taskQueue)
    (hstep : ∀ q taskId now later, motive q →
      motive (reassignTask c.agentRegistry q taskId now later))
    (clock : Nat → Moment × Int) : motive (c.reassignPass clock).taskQueue := by
  rw [reassignPass]
  generalize (c.taskQueue.listTasks .assigned 50).zipIdx = ts
  generalize c.taskQueue = q at hstart
  induction ts generalizing q with
  | nil => exact hstart
  | cons t ts ih => exact ih _ (hstep q _ _ _ hstart)

theorem logged_step {c : CoordinatorNode} (h : c.taskQueue.Logged) (event : Event) :
    (c.step event).taskQueue.Logged := by
  cases event with
  | submitTask s uuid now ticks => exact h.reaches (submitTask_reaches c s uuid now ticks)
  | heartbeat nodeId data now ticks => exact h.reaches (tryAssign_reaches _ ticks _)
  | pollTasks nodeId maxTasks clock => exact h.reaches (pollTasks_reaches c nodeId maxTasks clock)
  | reportResult taskId nodeId success result error now later =>
      rw [step, reportResult_eq]
      exact h.step _
  | cancelTask taskId =>
      rw [cancelTask_eq]
      exact h.step _
  | reassign clock =>
      exact reassignPass_induction h (fun q taskId now later hq => reassignTask_logged hq _ _ _)
        clock
  | crash config clock => exact TaskQueue.init_logged clock _
  | stop config clock => exact TaskQueue.init_logged clock _

/-- The coordinator after a history that began on an empty log. -/
def after (config : CoordinatorConfig) (clock : Nat → Moment) (events : List Event) :
    CoordinatorNode :=
  events.foldl step (start config clock [])

theorem logged_after (config : CoordinatorConfig) (clock : Nat → Moment) (events : List Event) :
    (after config clock events).taskQueue.Logged := by
  induction events using List.reverseRecOn with
  | nil => exact TaskQueue.init_logged clock []
  | append_singleton events event ih =>
      rw [after, List.foldl_append]
      exact logged_step ih event

section

variable (config config' : CoordinatorConfig) (clock clock' : Nat → Moment)
  (pass : Nat → Moment × Int) (events : List Event)

end

end CoordinatorNode

end Prodinamik.Grid
