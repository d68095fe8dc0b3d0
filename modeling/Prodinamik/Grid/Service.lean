import Prodinamik.Grid.Delivery
import Prodinamik.Grid.Stranded

namespace Prodinamik.Grid

open Lib

/-- What the timeout watcher reads: how long ago a time was, none where the
text is no time, and how it words that. -/
structure TimeoutPass where
  timeout : Int
  elapsed : String → Option Int
  error : Int → String
  clock : Nat → Moment × Int

/-- What happens to a coordinator while it runs: the calls and the passes of
its background loops. -/
inductive Action
  | call (call : Call)
  | registerNode (nodeId : String) (capabilities : Option (List String)) (maxWorkers : Int)
  | markUnhealthy (nodeId : String)
  | cancelTask (taskId : String)
  | timeouts (pass : TimeoutPass)
  | reassign (clock : Nat → Moment × Int)
  | cleanup (clock : Nat → Int)

/-- A clock that stands still. -/
def standing (time : Int) : Nat → Tick := fun _ => ⟨⟨time, ""⟩, "", id⟩

namespace TaskQueue

theorem of_mem_listTasks {q : TaskQueue} {status : TaskStatus} {limit : Nat} {task : Task}
    (h : task ∈ q.listTasks status limit) : task ∈ q.tasks.rows ∧ task.status = status := by
  have hmem := (List.mem_insertionSort _).mp (List.mem_of_mem_take h)
  obtain ⟨hrow, hstatus⟩ := List.mem_filter.mp hmem
  exact ⟨hrow, of_decide_eq_true hstatus⟩

theorem mem_iff_zipIdx {ts : List Task} {task : Task} : task ∈ ts ↔ ∃ i, (task, i) ∈ ts.zipIdx := by
  have hfst : ts.zipIdx.map Prod.fst = ts := List.zipIdx_map_fst 0 ts
  constructor
  · intro h
    rw [← hfst] at h
    obtain ⟨⟨task, i⟩, ht, rfl⟩ := List.mem_map.mp h
    exact ⟨i, ht⟩
  · rintro ⟨i, ht⟩
    rw [← hfst]
    exact List.mem_map_of_mem (f := Prod.fst) ht

theorem nodup_listTasks (q : TaskQueue) (status : TaskStatus) (limit : Nat) :
    ((q.listTasks status limit).zipIdx.map fun t => t.1.taskId).Nodup := by
  have hids : ((q.listTasks status limit).zipIdx.map fun t => t.1.taskId) =
      (q.listTasks status limit).map Task.taskId := by
    have hcomp : (fun t : Task × Nat => t.1.taskId) = Task.taskId ∘ Prod.fst := rfl
    rw [hcomp, ← List.map_map, List.zipIdx_map_fst]
  have hrows : ((q.tasks.rows.filter fun t => t.status = status).map Task.taskId).Nodup :=
    q.tasks.nodup.sublist (List.filter_sublist.map Task.taskId)
  rw [hids]
  refine List.Nodup.sublist ((List.take_sublist _ _).map Task.taskId) ?_
  exact ((List.perm_insertionSort _ _).map Task.taskId).nodup_iff.mpr hrows

end TaskQueue

namespace CoordinatorNode

/-- What the timeout watcher does with one of the tasks it lists. -/
def timeoutTask (p : TimeoutPass) (q : TaskQueue) (taskId : String) (now : Moment) (later : Int) :
    TaskQueue :=
  match (q.tasks.get taskId).bind fun task => task.assignedAt.bind fun text =>
      if text = "" then none else p.elapsed text with
  | none => q
  | some elapsed =>
      if p.timeout < elapsed then (q.fail taskId (p.error elapsed) true now later).getD q else q

/-- One pass of _task_timeout_watcher. -/
def timeoutPass (c : CoordinatorNode) (p : TimeoutPass) : CoordinatorNode :=
  { c with
    taskQueue := ((c.taskQueue.listTasks .running 50).zipIdx).foldl
      (fun q t => timeoutTask p q t.1.taskId (p.clock t.2).1 (p.clock t.2).2) c.taskQueue }

def act (c : CoordinatorNode) : Action → CoordinatorNode
  | .call call => c.step call.event
  | .registerNode nodeId capabilities maxWorkers =>
      { c with agentRegistry := c.agentRegistry.registerNode nodeId capabilities maxWorkers }
  | .markUnhealthy nodeId => { c with agentRegistry := c.agentRegistry.markUnhealthy nodeId }
  | .cancelTask taskId => c.step (.cancelTask taskId)
  | .timeouts pass => c.timeoutPass pass
  | .reassign clock => c.step (.reassign clock)
  | .cleanup clock => { c with agentRegistry := c.agentRegistry.cleanupStaleNodes clock }

/-- No task is ever RUNNING in the queue, so the watcher finds none. -/
theorem timeoutPass_eq {c : CoordinatorNode} (h : c.taskQueue.Logged) (p : TimeoutPass) :
    c.timeoutPass p = c := by
  have hnone : c.taskQueue.tasks.rows.filter (fun t => t.status = .running) = [] := by
    refine List.filter_eq_nil_iff.mpr fun task htask hstatus => ?_
    rw [decide_eq_true_eq] at hstatus
    have hget := Table.get_eq_some.mpr ⟨htask, rfl⟩
    refine (TaskQueue.walStatus_ne c.taskQueue.wal task.taskId).1 ?_
    rw [← h, TaskQueue.statusOf_of_get hget, hstatus]
  rw [timeoutPass, TaskQueue.listTasks, hnone]
  rfl

theorem reassignTask_sound {registry : AgentRegistry} {q : TaskQueue} (h : q.Sound)
    (taskId : String) (now : Moment) (later : Int) :
    (reassignTask registry q taskId now later).Sound := by
  rw [reassignTask]
  cases hget : q.tasks.get taskId with
  | none => exact h
  | some task =>
      simp only
      cases registry.getNode task.assignedNode with
      | none => exact h
      | some node =>
          simp only
          split
          case isFalse => exact h
          case isTrue =>
            have hcleared : ({ q with
                tasks := q.tasks.put { task with assignedNode := "" } } : TaskQueue).Sound :=
              ⟨logged_clear h.1 hget, h.2⟩
            exact hcleared.step (.fail taskId "Node lost" true now later)

theorem act_sound {c : CoordinatorNode} (h : c.taskQueue.Sound) (a : Action) :
    (c.act a).taskQueue.Sound := by
  cases a with
  | call call => exact Delivery.sound_step (d := ⟨c, ∅, []⟩) h call
  | registerNode nodeId capabilities maxWorkers => exact h
  | markUnhealthy nodeId => exact h
  | cancelTask taskId =>
      rw [act, cancelTask_eq]
      exact h.step _
  | timeouts pass =>
      rw [act, timeoutPass_eq h.1]
      exact h
  | reassign clock =>
      exact reassignPass_induction h (fun q taskId now later hq => reassignTask_sound hq _ _ _) clock
  | cleanup clock => exact h

end CoordinatorNode

end Prodinamik.Grid
