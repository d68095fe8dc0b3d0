import Prodinamik.Grid.Service

namespace Prodinamik.Grid

open Lib Lib.Run

namespace TaskQueue

def retries (q : TaskQueue) (id : String) : Nat := ((q.getTask id).map Task.retryCount).getD 0

/-- The task as a report leaves it. -/
def reported (task : Task) (success : Bool) (result : List (String × String)) (error : String)
    (now : Moment) : Task :=
  if success then finished task result now.isoformat
  else if (task.retryCount : Int) < task.maxRetries then retried task
  else givenUp task error now.isoformat

/-- The report says again what the last one said of a task that has ended. -/
def Repeats (task : Task) (success : Bool) (result : List (String × String)) (error : String)
    (now : Moment) : Prop :=
  if success then
    task.status = .completed ∧ task.result = result ∧ task.completedAt = some now.isoformat
  else
    task.maxRetries ≤ task.retryCount ∧ task.status = .failed ∧ task.error = some error ∧
      task.completedAt = some now.isoformat

/-- What a series of operations does: the tasks it acknowledges, and those
whose retry count it may raise by one. -/
structure Treats (q q' : TaskQueue) (ids grown : List String) : Prop where
  wal : ∃ rs, q'.wal = q.wal ++ rs ∧ acks rs = ids
  kept : ∀ id, id ∉ ids → (q'.assignee id).isSome →
    (q.assignee id).isSome ∧ q'.retries id = q.retries id
  grows : ∀ id, q'.retries id ≤ q.retries id + if id ∈ grown then 1 else 0

theorem reported_eq_iff {task : Task} {success : Bool} {result : List (String × String)}
    {error : String} {now : Moment} :
    reported task success result error now = task ↔ Repeats task success result error now := by
  cases success with
  | true =>
      rw [reported, Repeats, if_pos rfl, if_pos rfl]
      cases task
      simp only [finished, Task.mk.injEq, true_and, and_true]
      constructor
      · rintro ⟨hs, hc, hr⟩
        exact ⟨hs.symm, hr.symm, hc.symm⟩
      · rintro ⟨hs, hr, hc⟩
        exact ⟨hs.symm, hc.symm, hr.symm⟩
  | false =>
      rw [reported, Repeats, if_neg Bool.false_ne_true, if_neg Bool.false_ne_true]
      by_cases hretry : (task.retryCount : Int) < task.maxRetries
      · rw [if_pos hretry]
        refine iff_of_false ?_ fun h => absurd h.1 (not_le.mpr hretry)
        intro h
        have hcount : task.retryCount + 1 = task.retryCount := congrArg Task.retryCount h
        omega
      · rw [if_neg hretry]
        rw [and_iff_right (not_lt.mp hretry)]
        cases task
        simp only [givenUp, Task.mk.injEq, true_and, and_true]
        constructor
        · rintro ⟨hs, hc, he⟩
          exact ⟨hs.symm, he.symm, hc.symm⟩
        · rintro ⟨hs, he, hc⟩
          exact ⟨hs.symm, hc.symm, he.symm⟩

theorem retries_of_get {q : TaskQueue} {id : String} {task : Task}
    (h : q.tasks.get id = some task) : q.retries id = task.retryCount := by
  rw [retries, getTask, h]
  rfl

theorem retries_put {q q' : TaskQueue} {u : Task} (h : q'.tasks = q.tasks.put u) (id : String) :
    q'.retries id = if id = u.taskId then u.retryCount else q.retries id := by
  rw [retries, retries, getTask, getTask, h, Table.get_put]
  split <;> rfl

/-- A task that is put anew with its retry count. -/
theorem retries_put_same {q q' : TaskQueue} {u : Task} (h : q'.tasks = q.tasks.put u)
    (hu : u.retryCount = q.retries u.taskId) (id : String) : q'.retries id = q.retries id := by
  rw [retries_put h]
  split
  case isTrue hid => rw [hu, hid]
  case isFalse => rfl

theorem retries_of_tasks {q q' : TaskQueue} (h : q'.tasks = q.tasks) (id : String) :
    q'.retries id = q.retries id := by
  rw [retries, retries, getTask, getTask, h]

namespace Treats

variable {q q₁ q' : TaskQueue} {ids ids₁ grown grown₁ : List String}

theorem refl (q : TaskQueue) (grown : List String) : q.Treats q [] grown :=
  ⟨⟨[], (List.append_nil _).symm, rfl⟩, fun _ _ h => ⟨h, rfl⟩, fun _ => Nat.le_add_right _ _⟩

theorem mono (h : q.Treats q' ids grown) (hgrown : ∀ id ∈ grown, id ∈ grown₁) :
    q.Treats q' ids grown₁ := by
  refine ⟨h.wal, h.kept, fun id => ?_⟩
  have hgrows := h.grows id
  by_cases hid : id ∈ grown
  · rw [if_pos hid] at hgrows
    rwa [if_pos (hgrown id hid)]
  · rw [if_neg hid] at hgrows
    omega

theorem trans (h : q.Treats q₁ ids grown) (h₁ : q₁.Treats q' ids₁ grown₁)
    (hdisjoint : ∀ id ∈ grown, id ∉ grown₁) : q.Treats q' (ids ++ ids₁) (grown ++ grown₁) where
  wal := by
    obtain ⟨rs, hwal, hacks⟩ := h.wal
    obtain ⟨rs₁, hwal₁, hacks₁⟩ := h₁.wal
    refine ⟨rs ++ rs₁, by rw [hwal₁, hwal, List.append_assoc], ?_⟩
    rw [← hacks, ← hacks₁, acks, List.filterMap_append]
    rfl
  kept := by
    intro id hid hsome
    rw [List.mem_append, not_or] at hid
    obtain ⟨hsome₁, hretries₁⟩ := h₁.kept id hid.2 hsome
    obtain ⟨hbefore, hretries⟩ := h.kept id hid.1 hsome₁
    exact ⟨hbefore, hretries₁.trans hretries⟩
  grows := by
    intro id
    have hfirst := h.grows id
    have hrest := h₁.grows id
    by_cases hid : id ∈ grown
    · rw [if_pos hid] at hfirst
      rw [if_neg (hdisjoint id hid)] at hrest
      rw [if_pos (List.mem_append_left _ hid)]
      omega
    · rw [if_neg hid] at hfirst
      by_cases hid₁ : id ∈ grown₁
      · rw [if_pos hid₁] at hrest
        rw [if_pos (List.mem_append_right _ hid₁)]
        omega
      · rw [if_neg hid₁] at hrest
        omega

/-- One task is put anew and is not ASSIGNED. -/
theorem put {u : Task} {r : WalRecord} (htasks : q'.tasks = q.tasks.put u)
    (hwal : q'.wal = q.wal ++ [r]) (hack : acks [r] = []) (hstatus : u.status ≠ .assigned)
    (hretries : u.retryCount ≤ q.retries u.taskId + if u.taskId ∈ grown then 1 else 0) :
    q.Treats q' [] grown where
  wal := ⟨[r], hwal, hack⟩
  kept := by
    intro id _ hsome
    rw [assignee_put htasks, if_neg hstatus] at hsome
    rw [retries_put htasks]
    by_cases hid : id = u.taskId
    · rw [if_pos hid] at hsome
      cases hsome
    · rw [if_neg hid] at hsome ⊢
      exact ⟨hsome, rfl⟩
  grows := by
    intro id
    rw [retries_put htasks]
    split
    case isTrue hid => rwa [hid]
    case isFalse => exact Nat.le_add_right _ _

theorem of_assigns (h : q.Assigns q' ids) (hretries : ∀ id, q'.retries id = q.retries id) :
    q.Treats q' ids [] where
  wal := h.wal
  kept := by
    intro id hid hsome
    rw [h.others id hid] at hsome
    exact ⟨hsome, hretries id⟩
  grows := fun id => by rw [hretries, if_neg List.not_mem_nil, Nat.add_zero]

/-- The node of a task is cleared. -/
theorem clear {taskId : String} {task : Task} (hget : q.tasks.get taskId = some task) :
    q.Treats { q with tasks := q.tasks.put { task with assignedNode := "" } } [] [] := by
  have hid : task.taskId = taskId := Table.key_of_get hget
  have hretries : ∀ id, TaskQueue.retries
      { q with tasks := q.tasks.put { task with assignedNode := "" } } id = q.retries id :=
    retries_put_same (u := { task with assignedNode := "" }) rfl (hid ▸ retries_of_get hget).symm
  refine ⟨⟨[], (List.append_nil _).symm, rfl⟩, ?_, ?_⟩
  · intro id _ hsome
    refine ⟨?_, hretries id⟩
    rw [assignee_put (u := { task with assignedNode := "" }) rfl] at hsome
    split at hsome
    case isTrue hsame =>
      split at hsome
      case isTrue hstatus =>
        have htask : task.status = .assigned := hstatus
        rw [hsame, assignee, getTask, hid, hget, Option.bind_some, if_pos htask]
        rfl
      case isFalse => cases hsome
    case isFalse => exact hsome
  · intro id
    rw [hretries, if_neg List.not_mem_nil, Nat.add_zero]

theorem fail (q : TaskQueue) (id error : String) (now : Moment) (later : Int) :
    ∃ grown, q.Treats (q.step (.fail id error true now later)) [] grown ∧
      ∀ id' ∈ grown, id' = id ∧
        ∃ task, q.tasks.get id = some task ∧ (task.retryCount : Int) < task.maxRetries := by
  cases hget : q.tasks.get id with
  | none =>
      rw [(step_of_unknown hget).2.2.1]
      exact ⟨[], refl q [], fun id' hid => absurd hid List.not_mem_nil⟩
  | some task =>
      have hid : task.taskId = id := Table.key_of_get hget
      have hcount : q.retries task.taskId = task.retryCount := hid ▸ retries_of_get hget
      rw [(step_of_known hget).2.2.1]
      split
      case isTrue hretry =>
        refine ⟨[id], put (u := retried task) rfl rfl rfl (fun h => by cases h) ?_, ?_⟩
        · have hmem : (retried task).taskId ∈ [id] := List.mem_singleton.mpr hid
          rw [if_pos hmem]
          exact Nat.add_le_add_right hcount.ge 1
        · intro id' hid'
          exact ⟨List.mem_singleton.mp hid', task, rfl, hretry.2⟩
      case isFalse =>
        refine ⟨[], put (u := givenUp task error now.isoformat) rfl rfl rfl
          (fun h => by cases h) hcount.ge, ?_⟩
        exact fun id' hid' => absurd hid' List.not_mem_nil

theorem complete (q : TaskQueue) (id : String) (result : List (String × String)) (now : Moment) :
    q.Treats (q.step (.complete id result now)) [] [] := by
  cases hget : q.tasks.get id with
  | none =>
      rw [(step_of_unknown hget).2.1]
      exact refl q []
  | some task =>
      rw [(step_of_known hget).2.1]
      have hcount : q.retries task.taskId = task.retryCount :=
        Table.key_of_get hget ▸ retries_of_get hget
      exact put (u := finished task result now.isoformat) rfl rfl rfl (fun h => by cases h) hcount.ge

theorem cancel (q : TaskQueue) (id : String) : q.Treats (q.step (.cancel id)) [] [] := by
  cases hget : q.tasks.get id with
  | none =>
      rw [(step_of_unknown hget).2.2.2]
      exact refl q []
  | some task =>
      rw [(step_of_known hget).2.2.2]
      have hcount : q.retries task.taskId = task.retryCount :=
        Table.key_of_get hget ▸ retries_of_get hget
      exact put (u := dropped task) rfl rfl rfl (fun h => by cases h) hcount.ge

end Treats

end TaskQueue

namespace CoordinatorNode

theorem assignLoop_retries (registry : AgentRegistry) (ticks : Nat → Tick) (k : Nat)
    {q : TaskQueue} (hq : q.Sound) (id : String) :
    (Scheduler.assignLoop registry ticks k q).2.retries id = q.retries id := by
  induction k generalizing q with
  | zero => rfl
  | succ k ih =>
      obtain ⟨r, htasks, -, hr, heq | ⟨task, hget, hstatus, heq | ⟨nodeId, hsound, heq⟩⟩⟩ :=
        Scheduler.assignLoop_succ registry ticks k hq
      · rw [heq, ← TaskQueue.retries_of_tasks htasks]
      · have hname : (TaskQueue.enqueued task (ticks k).uuid (ticks k).toMoment).taskId =
            task.taskId := if_neg (hr.2.ne hr.1 hget)
        rw [heq, ← TaskQueue.retries_of_tasks htasks]
        refine TaskQueue.retries_put_same
          (u := TaskQueue.enqueued task (ticks k).uuid (ticks k).toMoment) rfl ?_ id
        rw [hname]
        exact (TaskQueue.retries_of_get hget).symm
      · rw [heq, ← TaskQueue.retries_of_tasks htasks, ih hsound]
        exact TaskQueue.retries_put_same (u := TaskQueue.assignedTo task nodeId (ticks k).toMoment)
          rfl (TaskQueue.retries_of_get hget).symm id

theorem pollLoop_retries (node : NodeInfo) (clock : Nat → Moment) (k : Nat) (q : TaskQueue)
    (id : String) : (pollLoop node clock k q).2.retries id = q.retries id := by
  induction k generalizing q with
  | zero => rfl
  | succ k ih =>
      obtain ⟨htasks, -, hfound⟩ := dequeueFor_spec node q
      rw [pollLoop]
      cases hdequeue : dequeueFor node q with
      | mk found r =>
          rw [hdequeue] at htasks hfound
          rw [← TaskQueue.retries_of_tasks htasks]
          cases found with
          | none => rfl
          | some task =>
              obtain ⟨hget, -⟩ := hfound task rfl
              rw [← htasks] at hget
              have hcount := (TaskQueue.retries_of_get hget).symm
              simp only [TaskQueue.acknowledge, hget, Option.map_some, Option.getD_some]
              rw [ih]
              exact TaskQueue.retries_put_same
                (u := TaskQueue.assignedTo task node.nodeId (clock k)) rfl hcount id

theorem tryAssign_treats {c : CoordinatorNode} (h : c.taskQueue.Sound) (ticks : Nat → Tick) :
    ∃ ids, c.taskQueue.Treats (c.tryAssign ticks).taskQueue ids [] := by
  obtain ⟨ids, hassigns, -, -⟩ := Scheduler.assignLoop_assigns c.agentRegistry ticks _ h
  exact ⟨ids, .of_assigns hassigns (assignLoop_retries c.agentRegistry ticks _ h)⟩

theorem pollTasks_treats (c : CoordinatorNode) (nodeId : String) (maxTasks : Int)
    (clock : Nat → Moment) :
    ∃ ids, c.taskQueue.Treats (c.pollTasks nodeId maxTasks clock).2.taskQueue ids [] := by
  rw [pollTasks]
  cases c.agentRegistry.getNode nodeId with
  | none => exact ⟨[], .refl _ []⟩
  | some node =>
      exact ⟨_, .of_assigns (pollLoop_assigns node clock _ c.taskQueue).1
        (pollLoop_retries node clock _ c.taskQueue)⟩

theorem submitTask_treats {c : CoordinatorNode} (h : c.taskQueue.Sound) (s : Submission)
    (uuid : String) (now : Moment) (ticks : Nat → Tick) :
    ∃ ids, c.taskQueue.Treats (c.submitTask s uuid now ticks).taskQueue ids [] := by
  obtain ⟨ids, htreats⟩ := tryAssign_treats
    (c := { c with taskQueue := c.taskQueue.enqueue (c.submittedTask s uuid) uuid now })
    (h.step (.enqueue (c.submittedTask s uuid) uuid now)) ticks
  have henqueue : c.taskQueue.Treats (c.taskQueue.enqueue (c.submittedTask s uuid) uuid now) [] [] :=
    .put (u := TaskQueue.enqueued (c.submittedTask s uuid) uuid now) rfl rfl rfl
      (fun h => by cases h) (Nat.zero_le _)
  exact ⟨ids, henqueue.trans htreats fun id hid => absurd hid List.not_mem_nil⟩

theorem reassignTask_treats (registry : AgentRegistry) (q : TaskQueue) (taskId : String)
    (now : Moment) (later : Int) :
    q.Treats (reassignTask registry q taskId now later) [] [taskId] := by
  rw [reassignTask]
  cases hget : q.tasks.get taskId with
  | none => exact .refl q _
  | some task =>
      simp only
      cases registry.getNode task.assignedNode with
      | none => exact .refl q _
      | some node =>
          simp only
          split
          case isFalse => exact .refl q _
          case isTrue =>
            have hid : task.taskId = taskId := Table.key_of_get hget
            have hclear := TaskQueue.Treats.clear hget
            obtain ⟨grown, hfail, hgrown⟩ := TaskQueue.Treats.fail
              { q with tasks := q.tasks.put { task with assignedNode := "" } } taskId "Node lost"
              now later
            have hboth := hclear.trans hfail fun id hid => absurd hid List.not_mem_nil
            exact hboth.mono fun id hid => List.mem_singleton.mpr (hgrown id hid).1

/-- The tasks of the pass are ASSIGNED when it begins, and each is there once. -/
theorem reassignPass_treats (c : CoordinatorNode) (clock : Nat → Moment × Int) :
    ∃ grown, c.taskQueue.Treats (c.reassignPass clock).taskQueue [] grown ∧
      ∀ id ∈ grown, (c.taskQueue.assignee id).isSome := by
  have hloop : ∀ (ts : List (Task × Nat)) (q : TaskQueue),
      (ts.map fun t => t.1.taskId).Nodup →
      q.Treats (ts.foldl (fun q t => reassignTask c.agentRegistry q t.1.taskId (clock t.2).1
        (clock t.2).2) q) [] (ts.map fun t => t.1.taskId) := by
    intro ts
    induction ts with
    | nil => exact fun q _ => .refl q []
    | cons t ts ih =>
        intro q hnodup
        rw [List.map_cons, List.nodup_cons] at hnodup
        have hfirst := reassignTask_treats c.agentRegistry q t.1.taskId (clock t.2).1 (clock t.2).2
        refine hfirst.trans (ih _ hnodup.2) ?_
        intro id hid
        rw [List.mem_singleton.mp hid]
        exact hnodup.1
  refine ⟨(c.taskQueue.listTasks .assigned 50).zipIdx.map fun t : Task × Nat => t.1.taskId,
    hloop _ c.taskQueue (c.taskQueue.nodup_listTasks .assigned 50), ?_⟩
  intro id hid
  obtain ⟨t, ht, rfl⟩ := List.mem_map.mp hid
  obtain ⟨hrow, hstatus⟩ := TaskQueue.of_mem_listTasks (TaskQueue.mem_iff_zipIdx.mpr ⟨t.2, ht⟩)
  rw [TaskQueue.assignee, TaskQueue.getTask, Table.get_eq_some.mpr ⟨hrow, rfl⟩,
    Option.bind_some, if_pos hstatus]
  rfl

/-- A report comes from the node the task is assigned to, or tells nothing new
of a task that has ended. -/
def Owned (c : CoordinatorNode) : Action → Prop
  | .call (.reportResult taskId nodeId success result error now _) =>
      ∀ task ∈ c.taskQueue.getTask taskId, c.taskQueue.assignee taskId = some nodeId ∨
        TaskQueue.Repeats task success result error now
  | _ => True

theorem act_treats {c : CoordinatorNode} (h : c.taskQueue.Sound) (a : Action) :
    ∃ ids grown, c.taskQueue.Treats (c.act a).taskQueue ids grown ∧
      (c.Owned a → ∀ id ∈ grown, (c.taskQueue.assignee id).isSome) := by
  have hnil : ∀ ids, c.taskQueue.Treats (c.act a).taskQueue ids [] →
      ∃ ids grown, c.taskQueue.Treats (c.act a).taskQueue ids grown ∧
        (c.Owned a → ∀ id ∈ grown, (c.taskQueue.assignee id).isSome) :=
    fun ids htreats => ⟨ids, [], htreats, fun _ id hid => absurd hid List.not_mem_nil⟩
  cases a with
  | call call =>
      cases call with
      | submitTask s uuid now ticks =>
          obtain ⟨ids, htreats⟩ := submitTask_treats h s uuid now ticks
          exact hnil ids htreats
      | heartbeat nodeId data now ticks =>
          obtain ⟨ids, htreats⟩ := tryAssign_treats (c := { c with
            agentRegistry := noteHeartbeat c.agentRegistry nodeId data now }) h ticks
          exact hnil ids htreats
      | pollTasks nodeId maxTasks clock =>
          obtain ⟨ids, htreats⟩ := pollTasks_treats c nodeId maxTasks clock
          exact hnil ids htreats
      | reportResult taskId nodeId success result error now later =>
          have hqueue : (c.act (.call (.reportResult taskId nodeId success result error now
              later))).taskQueue = c.taskQueue.step (reportOp taskId success result error now later) := by
            rw [act, Call.event, step, reportResult_eq]
          cases success with
          | true =>
              refine hnil [] ?_
              rw [hqueue]
              exact .complete c.taskQueue taskId result now
          | false =>
              obtain ⟨grown, hfail, hgrown⟩ :=
                TaskQueue.Treats.fail c.taskQueue taskId error now later
              refine ⟨[], grown, by rw [hqueue]; exact hfail, ?_⟩
              intro howned id hid
              obtain ⟨rfl, task, hget, hretry⟩ := hgrown id hid
              rcases howned task hget with hassigned | hrepeats
              · rw [hassigned]
                rfl
              · rw [TaskQueue.Repeats, if_neg Bool.false_ne_true] at hrepeats
                exact absurd hrepeats.1 (not_le.mpr hretry)
  | registerNode nodeId capabilities maxWorkers => exact hnil [] (.refl _ [])
  | markUnhealthy nodeId => exact hnil [] (.refl _ [])
  | cancelTask taskId =>
      refine hnil [] ?_
      rw [act, cancelTask_eq]
      exact .cancel c.taskQueue taskId
  | timeouts pass =>
      refine hnil [] ?_
      rw [act, timeoutPass_eq h.1]
      exact .refl _ []
  | reassign clock =>
      obtain ⟨grown, hpass, hgrown⟩ := reassignPass_treats c clock
      exact ⟨[], grown, hpass, fun _ => hgrown⟩
  | cleanup clock => exact hnil [] (.refl _ [])

end CoordinatorNode

/-- A coordinator and the tasks whose retry count has not grown since they were
last assigned. -/
structure Watched where
  node : CoordinatorNode
  fresh : Finset String

namespace Watched

/-- A coordinator that starts on a log; what it finds ASSIGNED was assigned
before. -/
def start (config : CoordinatorConfig) (clock : Nat → Moment) (wal : List WalRecord) : Watched :=
  let c := CoordinatorNode.start config clock wal
  ⟨c, ((c.taskQueue.tasks.rows.filter fun t => t.status = .assigned).map Task.taskId).toFinset⟩

/-- The ids an action acknowledges are read off the records it adds to the log. -/
def assigned (w : Watched) (a : Action) : List String :=
  TaskQueue.acks ((w.node.act a).taskQueue.wal.drop w.node.taskQueue.wal.length)

def step (w : Watched) (a : Action) : Watched where
  node := w.node.act a
  fresh := (w.fresh.filter fun id =>
    (w.node.act a).taskQueue.retries id ≤ w.node.taskQueue.retries id) ∪ (w.assigned a).toFinset

/-- A report changes only tasks that are assigned to the node it comes from;
what another node executes stays with that node. -/
def Fenced (w : Watched) (a : Action) : Prop :=
  ∀ taskId nodeId success result error now later,
    a = .call (.reportResult taskId nodeId success result error now later) →
      (∀ id, (w.node.act a).taskQueue.getTask id ≠ w.node.taskQueue.getTask id →
        w.node.taskQueue.assignee id = some nodeId) ∧
      ∀ id owner, w.node.taskQueue.assignee id = some owner → owner ≠ nodeId →
        (w.node.act a).taskQueue.assignee id = some owner

/-- The retry count of a task grows by one at most, and not twice on one
assignment. -/
def CountedOnce (w : Watched) (a : Action) : Prop :=
  ∀ id, (w.node.act a).taskQueue.retries id ≤
    w.node.taskQueue.retries id + if id ∈ w.fresh then 1 else 0

/-- What holds of every coordinator that runs, however reports come in. -/
structure Known (w : Watched) : Prop where
  sound : w.node.taskQueue.Sound
  fresh : ∀ id, (w.node.taskQueue.assignee id).isSome → id ∈ w.fresh

variable {w : Watched}

theorem assigned_eq {a : Action} {ids grown : List String}
    (h : w.node.taskQueue.Treats (w.node.act a).taskQueue ids grown) : w.assigned a = ids := by
  obtain ⟨rs, hwal, hacks⟩ := h.wal
  rw [assigned, hwal, List.drop_left, hacks]

theorem Known.step (h : w.Known) (a : Action) : (w.step a).Known := by
  refine ⟨CoordinatorNode.act_sound h.sound a, fun id hsome => ?_⟩
  obtain ⟨ids, grown, htreats, -⟩ := CoordinatorNode.act_treats h.sound a
  rw [Watched.step, assigned_eq htreats, Finset.mem_union, List.mem_toFinset]
  by_cases hid : id ∈ ids
  · exact Or.inr hid
  · obtain ⟨hbefore, hretries⟩ := htreats.kept id hid hsome
    exact Or.inl (Finset.mem_filter.mpr ⟨h.fresh id hbefore, hretries.le⟩)

theorem Known.countedOnce (h : w.Known) {a : Action} (ha : w.node.Owned a) : w.CountedOnce a := by
  intro id
  obtain ⟨ids, grown, htreats, hgrown⟩ := CoordinatorNode.act_treats h.sound a
  have hgrows := htreats.grows id
  by_cases hid : id ∈ grown
  · rw [if_pos hid] at hgrows
    rwa [if_pos (h.fresh id (hgrown ha id hid))]
  · rw [if_neg hid] at hgrows
    omega

theorem getTask_report (c : CoordinatorNode) (taskId nodeId : String) (success : Bool)
    (result : List (String × String)) (error : String) (now : Moment) (later : Int) (id : String) :
    (c.act (.call (.reportResult taskId nodeId success result error now later))).taskQueue.getTask
        id =
      if id = taskId then
        (c.taskQueue.getTask taskId).map fun task =>
          TaskQueue.reported task success result error now
      else c.taskQueue.getTask id := by
  have hqueue : (c.act (.call (.reportResult taskId nodeId success result error now
      later))).taskQueue =
        c.taskQueue.step (CoordinatorNode.reportOp taskId success result error now later) := by
    rw [CoordinatorNode.act, Call.event, CoordinatorNode.step, CoordinatorNode.reportResult_eq]
  rw [hqueue, TaskQueue.getTask, TaskQueue.getTask, TaskQueue.getTask]
  cases hget : c.taskQueue.tasks.get taskId with
  | none =>
      rw [Delivery.reportOp_of_unknown hget]
      split
      case isTrue hid => rw [hid, hget]; rfl
      case isFalse => rfl
  | some task =>
      have hid : task.taskId = taskId := Table.key_of_get hget
      have htasks : (c.taskQueue.step
          (CoordinatorNode.reportOp taskId success result error now later)).tasks =
            c.taskQueue.tasks.put (TaskQueue.reported task success result error now) := by
        cases success with
        | true =>
            rw [CoordinatorNode.reportOp, if_pos rfl, (TaskQueue.step_of_known hget).2.1]
            rfl
        | false =>
            rw [CoordinatorNode.reportOp, if_neg Bool.false_ne_true,
              (TaskQueue.step_of_known hget).2.2.1, TaskQueue.reported, if_neg Bool.false_ne_true]
            by_cases hretry : (task.retryCount : Int) < task.maxRetries
            · rw [if_pos ⟨rfl, hretry⟩, if_pos hretry]
              rfl
            · rw [if_neg fun h => hretry h.2, if_neg hretry]
              rfl
      have hname : (TaskQueue.reported task success result error now).taskId = taskId := by
        rw [← hid, TaskQueue.reported]
        split
        · rfl
        · split <;> rfl
      rw [htasks, Table.get_put, hname]
      rfl

theorem fenced_iff (w : Watched) (a : Action) : w.Fenced a ↔ w.node.Owned a := by
  cases a with
  | call call =>
      cases call with
      | reportResult taskId nodeId success result error now later =>
          have hget := getTask_report w.node taskId nodeId success result error now later
          constructor
          · intro h task htask
            rw [or_iff_not_imp_right]
            intro hrepeats
            refine (h taskId nodeId success result error now later rfl).1 taskId ?_
            rw [hget, if_pos rfl, Option.mem_def.mp htask, Option.map_some]
            exact fun hsame => hrepeats (TaskQueue.reported_eq_iff.mp (Option.some.inj hsame))
          · intro h taskId' nodeId' success' result' error' now' later' ha
            cases ha
            have hchanged : ∀ id, (w.node.act (.call (.reportResult taskId nodeId success result
                error now later))).taskQueue.getTask id ≠ w.node.taskQueue.getTask id →
                  w.node.taskQueue.assignee id = some nodeId := by
              intro id hne
              rw [hget] at hne
              split at hne
              case isFalse => exact absurd rfl hne
              case isTrue hid =>
                subst hid
                cases htask : w.node.taskQueue.getTask id with
                | none =>
                    rw [htask] at hne
                    exact absurd rfl hne
                | some task =>
                    rcases h task htask with hassigned | hrepeats
                    · exact hassigned
                    · rw [htask, Option.map_some, TaskQueue.reported_eq_iff.mpr hrepeats] at hne
                      exact absurd rfl hne
            refine ⟨hchanged, ?_⟩
            intro id owner howner hne
            by_cases hsame : (w.node.act (.call (.reportResult taskId nodeId success result
                error now later))).taskQueue.getTask id = w.node.taskQueue.getTask id
            · rw [TaskQueue.assignee, hsame]
              exact howner
            · rw [hchanged id hsame] at howner
              exact absurd (Option.some.inj howner).symm hne
      | submitTask | heartbeat | pollTasks =>
          refine iff_of_true ?_ trivial
          intro _ _ _ _ _ _ _ ha
          cases ha
  | registerNode | markUnhealthy | cancelTask | timeouts | reassign | cleanup =>
      refine iff_of_true ?_ trivial
      intro _ _ _ _ _ _ _ ha
      cases ha

theorem known_start (config : CoordinatorConfig) (clock : Nat → Moment) {wal : List WalRecord}
    (hwal : wal.countP (TaskQueue.enqueues "") = 0) : (start config clock wal).Known := by
  refine ⟨⟨TaskQueue.init_logged clock wal, hwal⟩, fun id hsome => ?_⟩
  rw [start, List.mem_toFinset, List.mem_map]
  rw [TaskQueue.assignee] at hsome
  cases hget : (start config clock wal).node.taskQueue.getTask id with
  | none =>
      rw [hget] at hsome
      cases hsome
  | some task =>
      rw [hget, Option.bind_some] at hsome
      split at hsome
      case isFalse => cases hsome
      case isTrue hstatus =>
        obtain ⟨hrow, hid⟩ := Table.get_eq_some.mp hget
        exact ⟨task, List.mem_filter.mpr ⟨hrow, decide_eq_true hstatus⟩, hid⟩

/-- Reports are fenced and every assignment counts once, in every run from a
coordinator that starts on a log, exactly if each report comes from the node the
task is assigned to or tells nothing new. -/
theorem fenced_run (config : CoordinatorConfig) (clock : Nat → Moment) {wal : List WalRecord}
    (hwal : wal.countP (TaskQueue.enqueues "") = 0) (actions : List Action) :
    Steps step (fun w a => w.Fenced a ∧ w.CountedOnce a) (start config clock wal) actions ↔
      Steps step (fun w a => w.node.Owned a) (start config clock wal) actions := by
  refine along_iff_steps Known (fun w a h => h.step a) (fun w a h _ => ?_)
    (known_start config clock hwal) trivial actions
  rw [true_and, fenced_iff]
  exact ⟨And.left, fun ha => ⟨ha, h.countedOnce ha⟩⟩

/-- A node is seen alive and gets a task from the scheduler. -/
def pushedToA : List Action :=
  [.call (.heartbeat "a" {} 0 (standing 0)), .call (.heartbeat "a" {} 0 (standing 0)),
    .call (.submitTask { goal := "g" } "1" ⟨0, ""⟩ (standing 0))]

/-- The node is silent for too long, and another one gets the task. -/
def movedToB : List Action :=
  pushedToA ++ [.reassign fun _ => (⟨100, ""⟩, 100), .call (.heartbeat "b" {} 100 (standing 100)),
    .call (.heartbeat "b" {} 100 (standing 100))]

def failureOfA : Action := .call (.reportResult "task-1" "a" false [] "late" ⟨101, ""⟩ 101)

theorem fenced_run_pushed :
    Steps step (fun w a => w.Fenced a ∧ w.CountedOnce a) (start {} (fun _ => default) [])
      (pushedToA ++ [failureOfA]) := by
  refine (fenced_run {} (fun _ => default) rfl _).mpr
    ⟨trivial, trivial, trivial, trivial, trivial, trivial, trivial, ?_, trivial⟩
  intro task _
  left
  decide +kernel

/-- The first node reports a failure late, and the task that the second one
executes is queued again. -/
theorem not_fenced :
    let w := movedToB.foldl step (start {} (fun _ => default) [])
    w.node.taskQueue.assignee "task-1" = some "b" ∧
      (w.step failureOfA).node.taskQueue.statusOf "task-1" = some .queued ∧
      ¬ Steps step (fun w a => w.Fenced a ∧ w.CountedOnce a) (start {} (fun _ => default) [])
        (movedToB ++ [failureOfA]) := by
  have hbefore : (movedToB.foldl step (start {} (fun _ => default) [])).node.taskQueue.assignee
      "task-1" = some "b" := by decide +kernel
  have hafter : ((movedToB.foldl step (start {} (fun _ => default) [])).step
      failureOfA).node.taskQueue.statusOf "task-1" = some .queued := by decide +kernel
  refine ⟨hbefore, hafter, fun h => ?_⟩
  have hkept := (h.last_action.1 _ _ _ _ _ _ _ rfl).2 "task-1" "b" hbefore (by decide)
  have hnot : ((movedToB.foldl step (start {} (fun _ => default) [])).step
      failureOfA).node.taskQueue.statusOf "task-1" ≠ some .assigned := by
    rw [hafter]
    decide
  have hnone := TaskQueue.assignee_eq_none hnot
  rw [Watched.step, hkept] at hnone
  cases hnone

end Watched

end Prodinamik.Grid
