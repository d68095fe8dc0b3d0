import Prodinamik.Grid.Service

namespace Prodinamik.Grid

open Lib

namespace TaskQueue

/-- The task as a fail with a retry leaves it. -/
def failedTask (task : Task) (error completedAt : String) : Task :=
  if (task.retryCount : Int) < task.maxRetries then retried task
  else givenUp task error completedAt

theorem failedTask_taskId (task : Task) (error completedAt : String) :
    (failedTask task error completedAt).taskId = task.taskId := by
  rw [failedTask]
  split <;> rfl

theorem failedTask_status (task : Task) (error completedAt : String) :
    (failedTask task error completedAt).status = .queued ∨
      (failedTask task error completedAt).status = .failed := by
  rw [failedTask]
  split
  · exact .inl rfl
  · exact .inr rfl

theorem tasks_fail {q : TaskQueue} {id : String} {task : Task} (hget : q.tasks.get id = some task)
    (error : String) (now : Moment) (later : Int) :
    ((q.fail id error true now later).getD q).tasks =
      q.tasks.put (failedTask task error now.isoformat) := by
  have hstep := (step_of_known hget).2.2.1 error true now later
  rw [step] at hstep
  rw [hstep, failedTask]
  by_cases hretry : (task.retryCount : Int) < task.maxRetries
  · rw [if_pos ⟨rfl, hretry⟩, if_pos hretry]
    rfl
  · rw [if_neg fun h => hretry h.2, if_neg hretry]
    rfl

/-! One task is replaced by what a function makes of it. -/

section

variable {q : TaskQueue} {taskId : String} (f : Task → Task)

theorem get_of_kept (hkept : ∀ task, q.tasks.get taskId = some task → f task = task)
    (id : String) :
    q.tasks.get id = if id = taskId then (q.tasks.get id).map f else q.tasks.get id := by
  split
  case isFalse => rfl
  case isTrue hid =>
    rw [hid]
    cases hget : q.tasks.get taskId with
    | none => rfl
    | some task => rw [Option.map_some, hkept task hget]

variable {f}

theorem get_of_put {task u : Task} (hget : q.tasks.get taskId = some task) (hu : f task = u)
    (hkey : u.taskId = taskId) (id : String) :
    (q.tasks.put u).get id =
      if id = taskId then (q.tasks.get id).map f else q.tasks.get id := by
  rw [Table.get_put, hkey]
  split
  case isTrue hid => rw [hid, hget, Option.map_some, hu]
  case isFalse => rfl

end

theorem mem_of_taskId_mem {q : TaskQueue} {status : TaskStatus} {limit : Nat} {task : Task}
    (hrow : task ∈ q.tasks.rows)
    (h : task.taskId ∈ (q.listTasks status limit).zipIdx.map fun t => t.1.taskId) :
    task ∈ q.listTasks status limit := by
  obtain ⟨t, ht, hid⟩ := List.mem_map.mp h
  have hlisted := mem_iff_zipIdx.mpr ⟨t.2, ht⟩
  have hsame := List.inj_on_of_nodup_map q.tasks.nodup (of_mem_listTasks hlisted).1 hrow hid
  rwa [hsame] at hlisted

/-- What a pass over a list of tasks does, one task after another. -/
theorem get_foldl_pass {upd : TaskQueue → Task × Nat → TaskQueue} {f : Nat → Task → Task}
    (hupd : ∀ q t id, (upd q t).tasks.get id =
      if id = t.1.taskId then (q.tasks.get id).map (f t.2) else q.tasks.get id)
    {ts : List (Task × Nat)} (hnodup : (ts.map fun t => t.1.taskId).Nodup) (q : TaskQueue) :
    (∀ t ∈ ts, (ts.foldl upd q).tasks.get t.1.taskId =
      (q.tasks.get t.1.taskId).map (f t.2)) ∧
    ∀ id, id ∉ ts.map (fun t => t.1.taskId) → (ts.foldl upd q).tasks.get id = q.tasks.get id := by
  induction ts generalizing q with
  | nil => exact ⟨fun t ht => absurd ht List.not_mem_nil, fun id _ => rfl⟩
  | cons t ts ih =>
      rw [List.map_cons, List.nodup_cons] at hnodup
      obtain ⟨hin, hout⟩ := ih hnodup.2 (upd q t)
      constructor
      · intro t' ht'
        rw [List.foldl_cons]
        rcases List.mem_cons.mp ht' with rfl | hrest
        · rw [hout _ hnodup.1, hupd, if_pos rfl]
        · have hne : t'.1.taskId ≠ t.1.taskId :=
            fun h => hnodup.1 (h ▸ List.mem_map_of_mem hrest)
          rw [hin t' hrest, hupd, if_neg hne]
      · intro id hid
        rw [List.map_cons, List.mem_cons, not_or] at hid
        rw [List.foldl_cons, hout id hid.2, hupd, if_neg hid.1]

end TaskQueue

namespace CoordinatorNode

open TaskQueue

/-- How long ago the task was handed out, as the watcher reads it. -/
def since (p : TimeoutPass) (task : Task) : Option Int :=
  task.assignedAt.bind fun text => if text = "" then none else p.elapsed text

/-- Handed out longer ago than the timeout and not reported yet. -/
def Overdue (p : TimeoutPass) (task : Task) : Prop :=
  (task.status = .assigned ∨ task.status = .running) ∧ ∃ e ∈ since p task, p.timeout < e

/-- Assigned to a node that is not alive, or that the registry no longer has. -/
def Lost (registry : AgentRegistry) (now : Int) (task : Task) : Prop :=
  task.status = .assigned ∧ task.assignedNode ≠ "" ∧
    ∀ node ∈ registry.getNode task.assignedNode, node.isAlive registry.heartbeatTtl now = false

instance (p : TimeoutPass) : DecidablePred (Overdue p) := fun task =>
  inferInstanceAs (Decidable ((task.status = .assigned ∨ task.status = .running) ∧
    ∃ e ∈ since p task, p.timeout < e))

instance (registry : AgentRegistry) (now : Int) : DecidablePred (Lost registry now) := fun task =>
  inferInstanceAs (Decidable (task.status = .assigned ∧ task.assignedNode ≠ "" ∧
    ∀ node ∈ registry.getNode task.assignedNode, node.isAlive registry.heartbeatTtl now = false))

/-- The task is back in the queue or ended; which node it had may be cleared. -/
def FailedIn (q : TaskQueue) (task : Task) : Prop :=
  ∃ nodeId error completedAt, q.getTask task.taskId =
    some (failedTask { task with assignedNode := nodeId } error completedAt)

/-- The pass of the timeout watcher fails the overdue tasks and no others. -/
def TimeoutsSeen (c : CoordinatorNode) (p : TimeoutPass) : Prop :=
  ∀ task ∈ c.taskQueue.tasks.rows,
    (Overdue p task → FailedIn (c.timeoutPass p).taskQueue task) ∧
    (¬ Overdue p task → (c.timeoutPass p).taskQueue.getTask task.taskId = some task)

/-- The reassignment pass fails the tasks that are lost when it begins, and
none that is lost at no reading of its clock. -/
def LossesSeen (c : CoordinatorNode) (clock : Nat → Moment × Int) : Prop :=
  ∀ task ∈ c.taskQueue.tasks.rows,
    (Lost c.agentRegistry (clock 0).1.time task →
      FailedIn (c.reassignPass clock).taskQueue task) ∧
    ((∀ i, ¬ Lost c.agentRegistry (clock i).1.time task) →
      (c.reassignPass clock).taskQueue.getTask task.taskId = some task)

/-- What the timeout watcher makes of a task it lists. -/
def timedOut (p : TimeoutPass) (now : Moment) (task : Task) : Task :=
  match since p task with
  | none => task
  | some e => if p.timeout < e then failedTask task (p.error e) now.isoformat else task

theorem get_timeoutTask (p : TimeoutPass) (q : TaskQueue) (taskId : String) (now : Moment)
    (later : Int) (id : String) :
    (timeoutTask p q taskId now later).tasks.get id =
      if id = taskId then (q.tasks.get id).map (timedOut p now) else q.tasks.get id := by
  rw [timeoutTask]
  cases hget : q.tasks.get taskId with
  | none => exact get_of_kept (q := q) (timedOut p now) (fun task h => by rw [hget] at h; cases h) id
  | some task =>
      have hsince : ((some task).bind fun task => task.assignedAt.bind fun text =>
          if text = "" then none else p.elapsed text) = since p task := rfl
      have hkept : timedOut p now task = task → q.tasks.get id =
          if id = taskId then (q.tasks.get id).map (timedOut p now) else q.tasks.get id := by
        intro hfix
        refine get_of_kept (timedOut p now) (fun task' h => ?_) id
        rw [hget] at h
        obtain rfl := Option.some.inj h
        exact hfix
      rw [hsince]
      cases helapsed : since p task with
      | none => exact hkept (by rw [timedOut, helapsed])
      | some e =>
          by_cases hlate : p.timeout < e
          · have hfailed : timedOut p now task = failedTask task (p.error e) now.isoformat := by
              simp only [timedOut, helapsed, hlate, if_true]
            simp only [hlate, if_true]
            rw [tasks_fail hget]
            refine get_of_put hget hfailed ?_ id
            rw [failedTask_taskId, Table.key_of_get hget]
          · simp only [hlate, if_false]
            exact hkept (by simp only [timedOut, helapsed, hlate, if_false])

/-- The reassignment pass finds the node of the task dead. -/
def Dead (registry : AgentRegistry) (now : Int) (task : Task) : Prop :=
  task.assignedNode ≠ "" ∧
    ∃ node ∈ registry.getNode task.assignedNode, node.isAlive registry.heartbeatTtl now = false

instance (registry : AgentRegistry) (now : Int) (task : Task) :
    Decidable (Dead registry now task) :=
  inferInstanceAs (Decidable (task.assignedNode ≠ "" ∧
    ∃ node ∈ registry.getNode task.assignedNode, node.isAlive registry.heartbeatTtl now = false))

/-- What the reassignment pass makes of a task it lists. -/
def reassigned (registry : AgentRegistry) (now : Moment) (task : Task) : Task :=
  if Dead registry now.time task then
    failedTask { task with assignedNode := "" } "Node lost" now.isoformat
  else task

theorem get_reassignTask (registry : AgentRegistry) (q : TaskQueue) (taskId : String) (now : Moment)
    (later : Int) (id : String) :
    (reassignTask registry q taskId now later).tasks.get id =
      if id = taskId then (q.tasks.get id).map (reassigned registry now) else q.tasks.get id := by
  rw [reassignTask]
  cases hget : q.tasks.get taskId with
  | none => exact get_of_kept (reassigned registry now) (fun task h => by rw [hget] at h; cases h) id
  | some task =>
      have hkept : ¬ Dead registry now.time task → q.tasks.get id =
          if id = taskId then (q.tasks.get id).map (reassigned registry now)
          else q.tasks.get id := by
        intro halive
        refine get_of_kept (reassigned registry now) (fun task' h => ?_) id
        rw [hget] at h
        obtain rfl := Option.some.inj h
        exact if_neg halive
      simp only
      cases hnode : registry.getNode task.assignedNode with
      | none =>
          refine hkept ?_
          rintro ⟨-, node, hmem, -⟩
          rw [hnode] at hmem
          cases hmem
      | some node =>
          simp only
          split
          case isFalse hdead =>
            refine hkept ?_
            rintro ⟨hne, node', hmem, halive⟩
            rw [hnode] at hmem
            obtain rfl := Option.some.inj hmem
            exact hdead ⟨hne, halive⟩
          case isTrue hdead =>
            have hfailed : reassigned registry now task =
                failedTask { task with assignedNode := "" } "Node lost" now.isoformat :=
              if_pos ⟨hdead.1, node, hnode, hdead.2⟩
            have hkey : task.taskId = taskId := Table.key_of_get hget
            have hcleared : (q.tasks.put { task with assignedNode := "" }).get taskId =
                some { task with assignedNode := "" } := by
              rw [Table.get_put, if_pos hkey.symm]
            rw [tasks_fail (q := { q with tasks := q.tasks.put { task with assignedNode := "" } })
              hcleared, Table.get_put, failedTask_taskId]
            have hput := get_of_put hget hfailed (by rw [failedTask_taskId]; exact hkey) id
            rw [Table.get_put, failedTask_taskId] at hput
            split
            case isTrue hid => rwa [if_pos hid] at hput
            case isFalse hid =>
              rw [Table.get_put_of_ne hid]
              rwa [if_neg hid] at hput

section

variable (c : CoordinatorNode) (p : TimeoutPass) (clock : Nat → Moment × Int)

/-- Each task the timeout watcher lists is treated once, at a reading of its
own; the others stay as they are. -/
theorem getTask_timeoutPass {task : Task} (hrow : task ∈ c.taskQueue.tasks.rows) :
    (∀ i, (task, i) ∈ (c.taskQueue.listTasks .running 50).zipIdx →
      (c.timeoutPass p).taskQueue.getTask task.taskId = some (timedOut p (p.clock i).1 task)) ∧
    (task ∉ c.taskQueue.listTasks .running 50 →
      (c.timeoutPass p).taskQueue.getTask task.taskId = some task) := by
  have hget : c.taskQueue.tasks.get task.taskId = some task := Table.get_eq_some.mpr ⟨hrow, rfl⟩
  obtain ⟨hin, hout⟩ := get_foldl_pass (f := fun i => timedOut p (p.clock i).1)
    (fun q t => get_timeoutTask p q t.1.taskId (p.clock t.2).1 (p.clock t.2).2)
    (c.taskQueue.nodup_listTasks .running 50) c.taskQueue
  constructor
  · intro i hi
    have hpass := hin (task, i) hi
    rw [hget] at hpass
    exact hpass
  · intro hlisted
    refine (hout task.taskId fun hmem => hlisted ?_).trans hget
    exact mem_of_taskId_mem hrow hmem

theorem getTask_reassignPass {task : Task} (hrow : task ∈ c.taskQueue.tasks.rows) :
    (∀ i, (task, i) ∈ (c.taskQueue.listTasks .assigned 50).zipIdx →
      (c.reassignPass clock).taskQueue.getTask task.taskId =
        some (reassigned c.agentRegistry (clock i).1 task)) ∧
    (task ∉ c.taskQueue.listTasks .assigned 50 →
      (c.reassignPass clock).taskQueue.getTask task.taskId = some task) := by
  have hget : c.taskQueue.tasks.get task.taskId = some task := Table.get_eq_some.mpr ⟨hrow, rfl⟩
  obtain ⟨hin, hout⟩ := get_foldl_pass (f := fun i => reassigned c.agentRegistry (clock i).1)
    (fun q t => get_reassignTask c.agentRegistry q t.1.taskId (clock t.2).1 (clock t.2).2)
    (c.taskQueue.nodup_listTasks .assigned 50) c.taskQueue
  constructor
  · intro i hi
    have hpass := hin (task, i) hi
    rw [hget] at hpass
    exact hpass
  · intro hlisted
    refine (hout task.taskId fun hmem => hlisted ?_).trans hget
    exact mem_of_taskId_mem hrow hmem

/-- A task that was handed out and is not failed is neither queued nor ended. -/
theorem not_failedIn {q : TaskQueue} {task : Task} (hget : q.getTask task.taskId = some task)
    (hstatus : task.status = .assigned ∨ task.status = .running) : ¬ FailedIn q task := by
  rintro ⟨nodeId, error, completedAt, hfailed⟩
  have hsame := Option.some.inj (hget.symm.trans hfailed)
  have hends := failedTask_status { task with assignedNode := nodeId } error completedAt
  rw [← hsame] at hends
  rcases hstatus with h | h <;> rw [h] at hends <;> simp at hends

theorem timedOut_of_overdue {task : Task} (hdue : Overdue p task) (now : Moment) :
    ∃ e, timedOut p now task = failedTask task (p.error e) now.isoformat := by
  obtain ⟨-, e, he, hlate⟩ := hdue
  refine ⟨e, ?_⟩
  rw [Option.mem_def] at he
  simp only [timedOut, he, hlate, if_true]

theorem timedOut_of_not_overdue {task : Task} (hrunning : task.status = .running)
    (hdue : ¬ Overdue p task) (now : Moment) : timedOut p now task = task := by
  rw [timedOut]
  cases helapsed : since p task with
  | none => rfl
  | some e => exact if_neg fun hlate => hdue ⟨.inr hrunning, e, helapsed, hlate⟩

/-- The watcher fails just the overdue tasks that are RUNNING and among the
first fifty of these; it does not see the ASSIGNED ones. -/
theorem timeoutsSeen_iff :
    c.TimeoutsSeen p ↔ ∀ task ∈ c.taskQueue.tasks.rows, Overdue p task →
      task ∈ c.taskQueue.listTasks .running 50 := by
  constructor
  · intro h task hrow hdue
    by_contra hlisted
    exact not_failedIn ((getTask_timeoutPass c p hrow).2 hlisted) hdue.1 ((h task hrow).1 hdue)
  · intro h task hrow
    obtain ⟨hin, hout⟩ := getTask_timeoutPass c p hrow
    constructor
    · intro hdue
      obtain ⟨i, hi⟩ := mem_iff_zipIdx.mp (h task hrow hdue)
      obtain ⟨e, hfailed⟩ := timedOut_of_overdue p hdue (p.clock i).1
      refine ⟨task.assignedNode, p.error e, (p.clock i).1.isoformat, ?_⟩
      rw [hin i hi, hfailed]
    · intro hdue
      by_cases hlisted : task ∈ c.taskQueue.listTasks .running 50
      · obtain ⟨i, hi⟩ := mem_iff_zipIdx.mp hlisted
        rw [hin i hi, timedOut_of_not_overdue p (of_mem_listTasks hlisted).2 hdue]
      · exact hout hlisted

theorem isAlive_mono {node : NodeInfo} {ttl now now' : Int} (hle : now ≤ now')
    (h : node.isAlive ttl now = false) : node.isAlive ttl now' = false := by
  rw [NodeInfo.isAlive] at h ⊢
  cases hlast : node.lastHeartbeat with
  | none => rfl
  | some last =>
      rw [hlast] at h
      simp only [decide_eq_false_iff_not] at h ⊢
      omega

/-- The reassignment pass fails just the tasks whose dead node is still in the
registry and that are among the first fifty ASSIGNED ones. -/
theorem lossesSeen_iff (hclock : ∀ i, (clock 0).1.time ≤ (clock i).1.time) :
    c.LossesSeen clock ↔ ∀ task ∈ c.taskQueue.tasks.rows,
      Lost c.agentRegistry (clock 0).1.time task →
        (c.agentRegistry.getNode task.assignedNode).isSome ∧
          task ∈ c.taskQueue.listTasks .assigned 50 := by
  constructor
  · intro h task hrow hlost
    obtain ⟨hin, hout⟩ := getTask_reassignPass c clock hrow
    have hfailed := (h task hrow).1 hlost
    have hlisted : task ∈ c.taskQueue.listTasks .assigned 50 := by
      by_contra hnot
      exact not_failedIn (hout hnot) (.inl hlost.1) hfailed
    refine ⟨?_, hlisted⟩
    by_contra hnode
    obtain ⟨i, hi⟩ := mem_iff_zipIdx.mp hlisted
    have hsame : reassigned c.agentRegistry (clock i).1 task = task := by
      refine if_neg ?_
      rintro ⟨-, node, hmem, -⟩
      rw [Option.mem_def] at hmem
      rw [hmem] at hnode
      exact hnode rfl
    have hget := hin i hi
    rw [hsame] at hget
    exact not_failedIn hget (.inl hlost.1) hfailed
  · intro h task hrow
    obtain ⟨hin, hout⟩ := getTask_reassignPass c clock hrow
    constructor
    · intro hlost
      obtain ⟨hnode, hlisted⟩ := h task hrow hlost
      obtain ⟨i, hi⟩ := mem_iff_zipIdx.mp hlisted
      obtain ⟨node, hnode⟩ := Option.isSome_iff_exists.mp hnode
      have hdead : Dead c.agentRegistry (clock i).1.time task :=
        ⟨hlost.2.1, node, hnode, isAlive_mono (hclock i) (hlost.2.2 node hnode)⟩
      refine ⟨"", "Node lost", (clock i).1.isoformat, ?_⟩
      rw [hin i hi, reassigned, if_pos hdead]
    · intro hkept
      by_cases hlisted : task ∈ c.taskQueue.listTasks .assigned 50
      · obtain ⟨i, hi⟩ := mem_iff_zipIdx.mp hlisted
        rw [hin i hi, reassigned, if_neg]
        rintro ⟨hne, node, hnode, hdead⟩
        refine hkept i ⟨(of_mem_listTasks hlisted).2, hne, fun node' hnode' => ?_⟩
        rw [Option.mem_def] at hnode hnode'
        rw [hnode] at hnode'
        obtain rfl := Option.some.inj hnode'
        exact hdead
      · exact hout hlisted

/-- The two passes miss nothing just where every overdue task is RUNNING and
among the first fifty of these, and every lost one among the first fifty
ASSIGNED ones with its node still registered. -/
theorem watchers_miss_nothing_iff (hclock : ∀ i, (clock 0).1.time ≤ (clock i).1.time) :
    c.TimeoutsSeen p ∧ c.LossesSeen clock ↔
      (∀ task ∈ c.taskQueue.tasks.rows, Overdue p task →
        task ∈ c.taskQueue.listTasks .running 50) ∧
      ∀ task ∈ c.taskQueue.tasks.rows, Lost c.agentRegistry (clock 0).1.time task →
        (c.agentRegistry.getNode task.assignedNode).isSome ∧
          task ∈ c.taskQueue.listTasks .assigned 50 :=
  and_congr (c.timeoutsSeen_iff p) (c.lossesSeen_iff clock hclock)

end

/-- A node that has been heard of twice, and a task that is given to it. -/
def handedOut : CoordinatorNode :=
  [.call (.heartbeat "n" {} 1 (standing 1)), .call (.heartbeat "n" {} 1 (standing 1)),
    .call (.submitTask { goal := "g" } "1" ⟨1, "t"⟩ fun _ => ⟨⟨1, "t"⟩, "", id⟩)].foldl act
    (start {} (fun _ => default) [])

/-- The task is seen to be lost as long as the dead node is registered. -/
theorem watchers_miss_nothing_handedOut :
    handedOut.TimeoutsSeen ⟨600, fun _ => some 20, fun _ => "", fun _ => (⟨20, "u"⟩, 20)⟩ ∧
      handedOut.LossesSeen fun _ => (⟨20, "u"⟩, 20) :=
  (watchers_miss_nothing_iff handedOut _ _ fun _ => le_refl _).mpr ⟨by decide +kernel, by decide +kernel⟩

/-- The watcher does not fail the overdue task, nor the reassignment pass the
one whose node the cleanup has removed. -/
theorem not_watchers_miss_nothing :
    ¬ handedOut.TimeoutsSeen ⟨600, fun _ => some 601, fun _ => "", fun _ => (⟨602, "u"⟩, 602)⟩ ∧
      ¬ (handedOut.act (.cleanup fun _ => 602)).LossesSeen fun _ => (⟨602, "u"⟩, 602) := by
  constructor
  · rw [timeoutsSeen_iff]
    decide +kernel
  · rw [lossesSeen_iff _ _ fun _ => le_refl _]
    decide +kernel

end CoordinatorNode

end Prodinamik.Grid
