import Prodinamik.Grid.AgentRegistry
import Prodinamik.Grid.Dequeue

namespace Prodinamik.Grid

open Lib

namespace Scheduler

/-- The node the three strategies of schedule come to; an empty id counts as
no node. -/
def chooseNode (registry : AgentRegistry) (tick : Tick) (task : Task) : Option String :=
  let best (affinity capability : String) :=
    (registry.findBestNode tick affinity capability).filter fun n => n ≠ ""
  (if task.affinity = "" then none else best task.affinity "") <|>
    ((task.tools.take 3).findSome? fun tool => best "" tool) <|>
    best "" ""

def schedule (registry : AgentRegistry) (tick : Tick) (q : TaskQueue) (task : Task) :
    Option String × TaskQueue :=
  if task.status ≠ .queued then (none, q)
  else
    match chooseNode registry tick task with
    | none => (none, q)
    | some nodeId => (some nodeId, (q.acknowledge task.taskId nodeId tick.toMoment).getD q)

/-- The loop of try_assign with the iterations it has left; it counts the
tasks it assigns. -/
def assignLoop (registry : AgentRegistry) (ticks : Nat → Tick) : Nat → TaskQueue → Nat × TaskQueue
  | 0, q => (0, q)
  | k + 1, q =>
      match q.dequeue "" with
      | (none, q) => (0, q)
      | (some task, q) =>
          match schedule registry (ticks k) q task with
          | (some _, q) =>
              let r := assignLoop registry ticks k q
              (r.1 + 1, r.2)
          | (none, q) => (0, q.enqueue task (ticks k).uuid (ticks k).toMoment)

def tryAssign (registry : AgentRegistry) (ticks : Nat → Tick) (q : TaskQueue) : Nat × TaskQueue :=
  assignLoop registry ticks (min 50 q.queueDepth) q

/-- The operations the loop makes of the queue. -/
def assignOps (registry : AgentRegistry) (ticks : Nat → Tick) : Nat → TaskQueue → List TaskQueue.Op
  | 0, _ => []
  | k + 1, q =>
      .dequeue "" ::
        match (q.dequeue "").1 with
        | none => []
        | some task =>
            match chooseNode registry (ticks k) task with
            | some nodeId =>
                .acknowledge task.taskId nodeId (ticks k).toMoment ::
                  assignOps registry ticks k
                    ((q.dequeue "").2.step (.acknowledge task.taskId nodeId (ticks k).toMoment))
            | none => [.enqueue task (ticks k).uuid (ticks k).toMoment]

theorem assignLoop_snd (registry : AgentRegistry) (ticks : Nat → Tick) (k : Nat) (q : TaskQueue) :
    (assignLoop registry ticks k q).2 =
      (assignOps registry ticks k q).foldl TaskQueue.step q := by
  induction k generalizing q with
  | zero => rfl
  | succ k ih =>
      rw [assignLoop, assignOps, List.foldl_cons]
      cases hdequeue : q.dequeue "" with
      | mk found q' =>
          have hstep : q.step (.dequeue "") = q' := by rw [TaskQueue.step, hdequeue]
          rw [hstep]
          cases found with
          | none => rfl
          | some task =>
              obtain ⟨e, -, -, -, hstatus⟩ :=
                TaskQueue.dequeue_eq_some (congrArg Prod.fst hdequeue)
              simp only [schedule, hstatus, ne_eq, not_true_eq_false, if_false]
              cases chooseNode registry (ticks k) task with
              | none => rfl
              | some nodeId => exact ih _

end Scheduler

end Prodinamik.Grid
