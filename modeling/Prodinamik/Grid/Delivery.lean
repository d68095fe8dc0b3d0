import Mathlib.Data.Finset.Union
import Prodinamik.Grid.Coordinator
import Prodinamik.Lib.Run

namespace Prodinamik.Grid

open Lib Lib.Run

namespace TaskQueue

/-- The node an ASSIGNED task is assigned to. -/
def assignee (q : TaskQueue) (id : String) : Option String :=
  (q.getTask id).bind fun task => if task.status = .assigned then some task.assignedNode else none

/-- The ids of the acknowledge records. -/
def acks (wal : List WalRecord) : List String :=
  wal.filterMap fun r =>
    match r with
    | .acknowledge id _ => some id
    | _ => none

theorem assignee_put {q q' : TaskQueue} {u : Task} (h : q'.tasks = q.tasks.put u)
    (id : String) :
    q'.assignee id =
      if id = u.taskId then if u.status = .assigned then some u.assignedNode else none
      else q.assignee id := by
  rw [assignee, assignee, getTask, getTask, h, Table.get_put]
  split <;> rfl

theorem assignee_eq_none {q : TaskQueue} {id : String} (h : q.statusOf id ≠ some .assigned) :
    q.assignee id = none := by
  rw [statusOf] at h
  rw [assignee]
  cases hget : q.getTask id with
  | none => rfl
  | some task =>
      rw [hget] at h
      exact if_neg fun hs => h (congrArg some hs)

/-- A task that is put anew and not ASSIGNED assigns nothing. -/
theorem assignee_of_put {q q' : TaskQueue} {u : Task} (h : q'.tasks = q.tasks.put u)
    (hstatus : u.status ≠ .assigned) (id nodeId : String)
    (hnode : q'.assignee id = some nodeId) : q.assignee id = some nodeId := by
  rw [assignee_put h, if_neg hstatus] at hnode
  split at hnode
  case isTrue => cases hnode
  case isFalse => exact hnode

/-- What a series of operations does to the tasks it acknowledges and to the
others. -/
structure Assigns (q q' : TaskQueue) (ids : List String) : Prop where
  wal : ∃ rs, q'.wal = q.wal ++ rs ∧ acks rs = ids
  nodup : ids.Nodup
  queued : ∀ id ∈ ids, q.statusOf id = some .queued
  others : ∀ id, id ∉ ids → q'.assignee id = q.assignee id

theorem Assigns.refl (q : TaskQueue) : q.Assigns q [] :=
  ⟨⟨[], (List.append_nil _).symm, rfl⟩, .nil, fun id hid => absurd hid List.not_mem_nil,
    fun id _ => rfl⟩

/-- One task is acknowledged first. -/
theorem Assigns.cons {q q' : TaskQueue} {ids : List String} {task : Task} (nodeId : String)
    (now : Moment) (hget : q.tasks.get task.taskId = some task) (hqueued : task.status = .queued)
    (h : (q.assign task nodeId now).Assigns q' ids) :
    q.Assigns q' (task.taskId :: ids) ∧ q'.assignee task.taskId = some nodeId := by
  have hstatus : (q.assign task nodeId now).statusOf task.taskId = some .assigned :=
    (statusOf_put (u := assignedTo task nodeId now) rfl _).trans (if_pos rfl)
  have hnew : task.taskId ∉ ids := by
    intro hmem
    have := h.queued _ hmem
    rw [hstatus] at this
    cases this
  have hassignee : ∀ id, (q.assign task nodeId now).assignee id =
      if id = task.taskId then some nodeId else q.assignee id :=
    fun id => assignee_put (u := assignedTo task nodeId now) rfl id
  refine ⟨⟨?_, List.nodup_cons.mpr ⟨hnew, h.nodup⟩, ?_, ?_⟩, ?_⟩
  · obtain ⟨rs, hwal, hacks⟩ := h.wal
    refine ⟨.acknowledge task.taskId nodeId :: rs, ?_, ?_⟩
    · rw [hwal, assign, List.append_assoc]
      rfl
    · rw [← hacks]
      rfl
  · intro id hid
    rcases List.mem_cons.mp hid with rfl | hid
    · rw [statusOf_of_get hget, hqueued]
    · have hlater := h.queued id hid
      have hne : id ≠ (assignedTo task nodeId now).taskId := fun he => hnew (he ▸ hid)
      rw [statusOf_put (u := assignedTo task nodeId now) rfl, if_neg hne] at hlater
      exact hlater
  · intro id hid
    rw [List.mem_cons, not_or] at hid
    rw [h.others id hid.2, hassignee, if_neg hid.1]
  · rw [h.others _ hnew, hassignee, if_pos rfl]

/-- Only the heap is changed first. -/
theorem Assigns.of_eq {q r q' : TaskQueue} {ids : List String} (htasks : r.tasks = q.tasks)
    (hwal : r.wal = q.wal) (h : r.Assigns q' ids) : q.Assigns q' ids := by
  obtain ⟨rs, hrs, hacks⟩ := h.wal
  refine ⟨⟨rs, by rw [hrs, hwal], hacks⟩, h.nodup, fun id hid => ?_, fun id hid => ?_⟩
  · have := h.queued id hid
    rwa [statusOf, getTask, htasks] at this
  · have := h.others id hid
    rwa [assignee.eq_1 r, getTask, htasks] at this

/-- A task that is put back while it is queued stays unassigned. -/
theorem assigns_putBack {q : TaskQueue} (hq : q.Sound) {task : Task}
    (hget : q.tasks.get task.taskId = some task) (hqueued : task.status = .queued) (uuid : String)
    (now : Moment) : q.Assigns (q.enqueue task uuid now) [] := by
  have hid : (enqueued task uuid now).taskId = task.taskId := if_neg (hq.2.ne hq.1 hget)
  refine ⟨⟨_, rfl, rfl⟩, .nil, fun id hid => absurd hid List.not_mem_nil,
    fun id _ => ?_⟩
  rw [assignee_put (u := enqueued task uuid now) rfl, hid]
  split
  case isTrue h =>
    rw [h, assignee_eq_none]
    · rfl
    · rw [statusOf_of_get hget, hqueued]
      decide
  case isFalse => rfl

end TaskQueue

namespace Scheduler

/-- What a round of the loop does: there is no task, or the task is put back, or it is
assigned and the loop goes on. -/
theorem assignLoop_succ (registry : AgentRegistry) (ticks : Nat → Tick) (k : Nat) {q : TaskQueue}
    (hq : q.Sound) : ∃ r : TaskQueue, r.tasks = q.tasks ∧ r.wal = q.wal ∧ r.Sound ∧
      (assignLoop registry ticks (k + 1) q = (0, r) ∨
        ∃ task, r.tasks.get task.taskId = some task ∧ task.status = .queued ∧
          (assignLoop registry ticks (k + 1) q =
              (0, r.enqueue task (ticks k).uuid (ticks k).toMoment) ∨
            ∃ nodeId, (r.assign task nodeId (ticks k).toMoment).Sound ∧
              assignLoop registry ticks (k + 1) q =
                ((assignLoop registry ticks k (r.assign task nodeId (ticks k).toMoment)).1 + 1,
                  (assignLoop registry ticks k (r.assign task nodeId (ticks k).toMoment)).2))) := by
  rw [assignLoop]
  cases hdequeue : q.dequeue "" with
  | mk found r =>
      have htasks : r.tasks = q.tasks := (congrArg (TaskQueue.tasks ∘ Prod.snd) hdequeue).symm
      have hwal : r.wal = q.wal := (congrArg (TaskQueue.wal ∘ Prod.snd) hdequeue).symm
      have hr : r.Sound := by
        have hstep := hq.step (.dequeue "")
        rwa [TaskQueue.step, hdequeue] at hstep
      refine ⟨r, htasks, hwal, hr, ?_⟩
      cases found with
      | none => exact .inl rfl
      | some task =>
          obtain ⟨e, -, hget, htaskId, hstatus⟩ :=
            TaskQueue.dequeue_eq_some (congrArg Prod.fst hdequeue)
          rw [← htaskId, ← htasks] at hget
          refine .inr ⟨task, hget, hstatus, ?_⟩
          simp only [schedule, hstatus, ne_eq, not_true_eq_false, if_false]
          cases chooseNode registry (ticks k) task with
          | none => exact .inl rfl
          | some nodeId =>
              refine .inr ⟨nodeId, (TaskQueue.step_of_known hget).1 nodeId _ ▸ hr.step _, ?_⟩
              simp only [TaskQueue.acknowledge, hget, Option.map_some, Option.getD_some]

theorem assignLoop_assigns (registry : AgentRegistry) (ticks : Nat → Tick) (k : Nat)
    {q : TaskQueue} (hq : q.Sound) :
    ∃ ids, q.Assigns (assignLoop registry ticks k q).2 ids ∧
      ids.length = (assignLoop registry ticks k q).1 ∧
      ∀ id ∈ ids, ((assignLoop registry ticks k q).2.assignee id).isSome := by
  induction k generalizing q with
  | zero => exact ⟨[], .refl q, rfl, fun id hid => absurd hid List.not_mem_nil⟩
  | succ k ih =>
      obtain ⟨r, htasks, hwal, hr, heq | ⟨task, hget, hstatus, heq | ⟨nodeId, hsound, heq⟩⟩⟩ :=
        assignLoop_succ registry ticks k hq
      · rw [heq]
        exact ⟨[], (TaskQueue.Assigns.refl r).of_eq htasks hwal, rfl,
          fun id hid => absurd hid List.not_mem_nil⟩
      · rw [heq]
        exact ⟨[], (TaskQueue.assigns_putBack hr hget hstatus _ _).of_eq htasks hwal, rfl,
          fun id hid => absurd hid List.not_mem_nil⟩
      · rw [heq]
        obtain ⟨ids, hassigns, hlength, hassigned⟩ := ih hsound
        obtain ⟨hfirst, hnode⟩ := hassigns.cons nodeId _ hget hstatus
        refine ⟨task.taskId :: ids, hfirst.of_eq htasks hwal, congrArg (· + 1) hlength, ?_⟩
        intro id hid
        rcases List.mem_cons.mp hid with rfl | hid
        · rw [hnode]
          rfl
        · exact hassigned id hid

/-- The first task a pass would take finds no node, or there is none. -/
def Idle (registry : AgentRegistry) (ticks : Nat → Tick) (q : TaskQueue) : Prop :=
  q.queueDepth = 0 ∨
    ∀ task ∈ (q.dequeue "").1, chooseNode registry (ticks (min 50 q.queueDepth - 1)) task = none

theorem tryAssign_fst_eq_zero_iff (registry : AgentRegistry) (ticks : Nat → Tick) (q : TaskQueue) :
    (tryAssign registry ticks q).1 = 0 ↔ Idle registry ticks q := by
  rw [tryAssign, Idle]
  cases hk : min 50 q.queueDepth with
  | zero => exact iff_of_true rfl (.inl (by omega))
  | succ k =>
      have hdepth : q.queueDepth ≠ 0 := by omega
      rw [or_iff_right hdepth, assignLoop, Nat.add_sub_cancel]
      cases hdequeue : q.dequeue "" with
      | mk found r =>
          cases found with
          | none => simp
          | some task =>
              obtain ⟨e, -, -, -, hstatus⟩ :=
                TaskQueue.dequeue_eq_some (congrArg Prod.fst hdequeue)
              simp only [schedule, hstatus, ne_eq, not_true_eq_false, if_false]
              cases hnode : chooseNode registry (ticks k) task with
              | none => simp [hnode]
              | some nodeId => simp [hnode]

end Scheduler

namespace CoordinatorNode

theorem dequeueFor_spec (node : NodeInfo) (q : TaskQueue) :
    (dequeueFor node q).2.tasks = q.tasks ∧ (dequeueFor node q).2.wal = q.wal ∧
      ∀ task ∈ (dequeueFor node q).1,
        q.tasks.get task.taskId = some task ∧ task.status = .queued := by
  rw [dequeueFor]
  cases hdequeue : q.dequeue (node.capabilities.headD "") with
  | mk found r =>
      have htasks : r.tasks = q.tasks := (congrArg (TaskQueue.tasks ∘ Prod.snd) hdequeue).symm
      have hwal : r.wal = q.wal := (congrArg (TaskQueue.wal ∘ Prod.snd) hdequeue).symm
      cases found with
      | none =>
          refine ⟨htasks, hwal, fun task htask => ?_⟩
          obtain ⟨e, -, hget, htaskId, hstatus⟩ := TaskQueue.dequeue_eq_some htask
          rw [← htasks, htaskId]
          exact ⟨hget, hstatus⟩
      | some task =>
          refine ⟨htasks, hwal, fun task' htask => ?_⟩
          obtain rfl := Option.some.inj htask
          obtain ⟨e, -, hget, htaskId, hstatus⟩ :=
            TaskQueue.dequeue_eq_some (congrArg Prod.fst hdequeue)
          rw [htaskId]
          exact ⟨hget, hstatus⟩

/-- A poll hands out the tasks it assigns, each once. -/
theorem pollLoop_assigns (node : NodeInfo) (clock : Nat → Moment) (k : Nat) (q : TaskQueue) :
    q.Assigns (pollLoop node clock k q).2 ((pollLoop node clock k q).1.map Task.taskId) ∧
      ∀ id ∈ (pollLoop node clock k q).1.map Task.taskId,
        (pollLoop node clock k q).2.assignee id = some node.nodeId := by
  induction k generalizing q with
  | zero => exact ⟨.refl q, fun id hid => absurd hid List.not_mem_nil⟩
  | succ k ih =>
      obtain ⟨htasks, hwal, hfound⟩ := dequeueFor_spec node q
      rw [pollLoop]
      cases hdequeue : dequeueFor node q with
      | mk found r =>
          rw [hdequeue] at htasks hwal hfound
          cases found with
          | none =>
              exact ⟨(TaskQueue.Assigns.refl r).of_eq htasks hwal,
                fun id hid => absurd hid List.not_mem_nil⟩
          | some task =>
              obtain ⟨hget, hstatus⟩ := hfound task rfl
              rw [← htasks] at hget
              simp only [TaskQueue.acknowledge, hget, Option.map_some, Option.getD_some]
              obtain ⟨hassigns, hnodes⟩ := ih (r.assign task node.nodeId (clock k))
              obtain ⟨hfirst, hnode⟩ := hassigns.cons node.nodeId _ hget hstatus
              refine ⟨hfirst.of_eq htasks hwal, fun id hid => ?_⟩
              rcases List.mem_cons.mp hid with rfl | hid
              · exact hnode
              · exact hnodes id hid

theorem pollTasks_assigns (c : CoordinatorNode) (nodeId : String) (maxTasks : Int)
    (clock : Nat → Moment) :
    c.taskQueue.Assigns (c.pollTasks nodeId maxTasks clock).2.taskQueue
        ((c.pollTasks nodeId maxTasks clock).1.map PolledTask.taskId) ∧
      ∀ id ∈ (c.pollTasks nodeId maxTasks clock).1.map PolledTask.taskId,
        (c.pollTasks nodeId maxTasks clock).2.taskQueue.assignee id = some nodeId := by
  rw [pollTasks]
  cases hnode : c.agentRegistry.getNode nodeId with
  | none => exact ⟨.refl _, fun id hid => absurd hid List.not_mem_nil⟩
  | some node =>
      have hid : node.nodeId = nodeId := Table.key_of_get hnode
      have hpolled : PolledTask.taskId ∘ polled = Task.taskId := rfl
      simp only [List.map_map, hpolled]
      rw [← hid]
      exact pollLoop_assigns node clock _ c.taskQueue

end CoordinatorNode

/-- The calls of clients and workers. -/
inductive Call
  | submitTask (s : Submission) (uuid : String) (now : Moment) (ticks : Nat → Tick)
  | heartbeat (nodeId : String) (data : HeartbeatData) (now : Int) (ticks : Nat → Tick)
  | pollTasks (nodeId : String) (maxTasks : Int) (clock : Nat → Moment)
  | reportResult (taskId nodeId : String) (success : Bool) (result : List (String × String))
      (error : String) (now : Moment) (later : Int)

namespace Call

def event : Call → CoordinatorNode.Event
  | .submitTask s uuid now ticks => .submitTask s uuid now ticks
  | .heartbeat nodeId data now ticks => .heartbeat nodeId data now ticks
  | .pollTasks nodeId maxTasks clock => .pollTasks nodeId maxTasks clock
  | .reportResult taskId nodeId success result error now later =>
      .reportResult taskId nodeId success result error now later

/-- The tasks a poll hands out, with the node that gets them. -/
def response (c : CoordinatorNode) : Call → List (String × String)
  | .pollTasks nodeId maxTasks clock =>
      (c.pollTasks nodeId maxTasks clock).1.map fun task => (task.taskId, nodeId)
  | _ => []

end Call

/-- A coordinator, the tasks assigned since it started, and the tasks handed
out since they were last assigned. -/
structure Delivery where
  node : CoordinatorNode
  assigned : Finset String
  handed : List (String × String)

namespace Delivery

def begin (config : CoordinatorConfig) (clock : Nat → Moment) (wal : List WalRecord) : Delivery :=
  ⟨.start config clock wal, ∅, []⟩

/-- The ids a call acknowledges are read off the records it adds to the log. -/
def fresh (d : Delivery) (call : Call) : List String :=
  TaskQueue.acks ((d.node.step call.event).taskQueue.wal.drop d.node.taskQueue.wal.length)

def step (d : Delivery) (call : Call) : Delivery where
  node := d.node.step call.event
  assigned := d.assigned ∪ (d.fresh call).toFinset
  handed := d.handed.filter (fun h => h.1 ∉ d.fresh call) ++ call.response d.node

/-- Every task that is ASSIGNED to a node has been handed to it once since. -/
def Received (d : Delivery) : Prop :=
  ∀ id ∈ d.assigned, ∀ nodeId ∈ d.node.taskQueue.assignee id, d.handed.count (id, nodeId) = 1

/-- The pass of the scheduler that the call ends with assigns nothing. -/
def Pushless (d : Delivery) : Call → Prop
  | .submitTask s uuid now ticks =>
      Scheduler.Idle d.node.agentRegistry ticks
        (d.node.taskQueue.enqueue (d.node.submittedTask s uuid) uuid now)
  | .heartbeat nodeId data now ticks =>
      Scheduler.Idle (CoordinatorNode.noteHeartbeat d.node.agentRegistry nodeId data now) ticks
        d.node.taskQueue
  | .pollTasks _ _ _ => True
  | .reportResult _ _ _ _ _ _ _ => True

theorem sound_step {d : Delivery} (h : d.node.taskQueue.Sound) (call : Call) :
    (d.step call).node.taskQueue.Sound := by
  cases call with
  | submitTask s uuid now ticks =>
      exact h.reaches (CoordinatorNode.submitTask_reaches d.node s uuid now ticks)
  | heartbeat nodeId data now ticks =>
      exact h.reaches (CoordinatorNode.tryAssign_reaches _ ticks _)
  | pollTasks nodeId maxTasks clock =>
      exact h.reaches (CoordinatorNode.pollTasks_reaches d.node nodeId maxTasks clock)
  | reportResult taskId nodeId success result error now later =>
      rw [step, Call.event, CoordinatorNode.step, CoordinatorNode.reportResult_eq]
      exact h.step _

theorem fresh_eq {d : Delivery} {call : Call} {l : List WalRecord}
    (h : (d.node.step call.event).taskQueue.wal = d.node.taskQueue.wal ++ l) :
    d.fresh call = TaskQueue.acks l := by
  rw [fresh, h, List.drop_left]

section

variable {d : Delivery} (h : d.Received) {call : Call} {ids : List String}
  (hfresh : d.fresh call = ids)
  (hothers : ∀ id, id ∉ ids → ∀ nodeId, (d.step call).node.taskQueue.assignee id = some nodeId →
    d.node.taskQueue.assignee id = some nodeId)
include hfresh

theorem count_handed (id nodeId : String) :
    (d.step call).handed.count (id, nodeId) =
      (if id ∈ ids then 0 else d.handed.count (id, nodeId)) +
        (call.response d.node).count (id, nodeId) := by
  rw [step, List.count_append, hfresh]
  congr 1
  split
  case isTrue hid =>
    refine List.count_eq_zero.mpr fun hmem => ?_
    have := (List.mem_filter.mp hmem).2
    rw [decide_eq_true_eq] at this
    exact this hid
  case isFalse hid => exact List.count_filter (by simpa using hid)

include h hothers

/-- A call that hands nothing out keeps what is received as long as it
assigns nothing. -/
theorem received_push_iff (hresponse : call.response d.node = [])
    (hassigned : ∀ id ∈ ids, ((d.step call).node.taskQueue.assignee id).isSome) :
    (d.step call).Received ↔ ids = [] := by
  constructor
  · intro h'
    refine List.eq_nil_iff_forall_not_mem.mpr fun id hid => ?_
    obtain ⟨nodeId, hnode⟩ := Option.isSome_iff_exists.mp (hassigned id hid)
    have hmem : id ∈ (d.step call).assigned := by
      rw [step, hfresh]
      exact Finset.mem_union_right _ (List.mem_toFinset.mpr hid)
    have hcount := h' id hmem nodeId hnode
    rw [count_handed hfresh, if_pos hid, hresponse] at hcount
    cases hcount
  · rintro rfl id hid nodeId hnode
    have hid' : id ∈ d.assigned := by
      rw [step, hfresh] at hid
      simpa using hid
    rw [count_handed hfresh, if_neg List.not_mem_nil, hresponse]
    exact h id hid' nodeId (hothers id List.not_mem_nil nodeId hnode)

/-- A poll hands out what it assigns. -/
theorem received_poll {nodeId : String} (hnodup : ids.Nodup)
    (hresponse : call.response d.node = ids.map fun id => (id, nodeId))
    (hassigned : ∀ id ∈ ids, (d.step call).node.taskQueue.assignee id = some nodeId) :
    (d.step call).Received := by
  intro id hid n hn
  have hcount : (ids.map fun id => (id, nodeId)).count (id, nodeId) = ids.count id :=
    List.count_map_of_injective ids (fun id => (id, nodeId))
      (fun a b hab => congrArg Prod.fst hab) id
  by_cases hmem : id ∈ ids
  · rw [hassigned id hmem, Option.mem_some_iff] at hn
    rw [count_handed hfresh, if_pos hmem, hresponse, ← hn, hcount,
      List.count_eq_one_of_mem hnodup hmem]
  · have hid' : id ∈ d.assigned := by
      rw [step, hfresh] at hid
      rcases Finset.mem_union.mp hid with hold | hnew
      · exact hold
      · exact absurd (List.mem_toFinset.mp hnew) hmem
    have hzero : (call.response d.node).count (id, n) = 0 := by
      rw [hresponse]
      refine List.count_eq_zero.mpr fun hresp => ?_
      obtain ⟨id', hid', he⟩ := List.mem_map.mp hresp
      cases he
      exact hmem hid'
    rw [count_handed hfresh, if_neg hmem, hzero]
    exact h id hid' n (hothers id hmem n hn)

end

/-- The pass at the end of a call. -/
theorem received_pass_iff {d : Delivery} (h : d.Received) {call : Call} {q : TaskQueue}
    {registry : AgentRegistry} {ticks : Nat → Tick} (hq : q.Sound)
    (hwal : ∃ rs, q.wal = d.node.taskQueue.wal ++ rs ∧ TaskQueue.acks rs = [])
    (hbefore : ∀ id nodeId, q.assignee id = some nodeId →
      d.node.taskQueue.assignee id = some nodeId)
    (hpass : (d.node.step call.event).taskQueue = (Scheduler.tryAssign registry ticks q).2)
    (hresponse : call.response d.node = []) :
    (d.step call).Received ↔ Scheduler.Idle registry ticks q := by
  obtain ⟨ids, hassigns, hlength, hassigned⟩ :=
    Scheduler.assignLoop_assigns registry ticks (min 50 q.queueDepth) hq
  rw [← Scheduler.tryAssign] at hassigns hlength hassigned
  rw [← hpass] at hassigns hassigned
  obtain ⟨rs, hrs, hacks⟩ := hwal
  obtain ⟨rs', hrs', hacks'⟩ := hassigns.wal
  have hfresh : d.fresh call = ids := by
    rw [fresh_eq (l := rs ++ rs') (by rw [hrs', hrs, List.append_assoc]), TaskQueue.acks,
      List.filterMap_append, ← TaskQueue.acks, ← TaskQueue.acks, hacks, hacks', List.nil_append]
  have hothers : ∀ id, id ∉ ids → ∀ nodeId,
      (d.step call).node.taskQueue.assignee id = some nodeId →
        d.node.taskQueue.assignee id = some nodeId :=
    fun id hid nodeId hn => hbefore id nodeId ((hassigns.others id hid).symm.trans hn)
  rw [received_push_iff h hfresh hothers hresponse hassigned,
    ← Scheduler.tryAssign_fst_eq_zero_iff, ← hlength, List.length_eq_zero_iff]

/-- A report of a task that is not known changes nothing. -/
theorem reportOp_of_unknown {q : TaskQueue} {taskId : String} (hget : q.tasks.get taskId = none)
    {success : Bool} {result : List (String × String)} {error : String} {now : Moment}
    {later : Int} :
    q.step (CoordinatorNode.reportOp taskId success result error now later) = q := by
  cases success with
  | true => exact (TaskQueue.step_of_unknown hget).2.1 result now
  | false => exact (TaskQueue.step_of_unknown hget).2.2.1 error true now later

theorem reportOp_spec (q : TaskQueue) (taskId : String) (success : Bool)
    (result : List (String × String)) (error : String) (now : Moment) (later : Int) :
    let q' := q.step (CoordinatorNode.reportOp taskId success result error now later)
    (∃ rs, q'.wal = q.wal ++ rs ∧ TaskQueue.acks rs = []) ∧
      ∀ id nodeId, q'.assignee id = some nodeId → q.assignee id = some nodeId := by
  cases hget : q.tasks.get taskId with
  | none =>
      rw [reportOp_of_unknown hget]
      exact ⟨⟨[], (List.append_nil _).symm, rfl⟩, fun id nodeId hn => hn⟩
  | some task =>
      cases success with
      | true =>
          have hstep := (TaskQueue.step_of_known hget).2.1 result now
          rw [CoordinatorNode.reportOp, if_pos rfl, hstep]
          exact ⟨⟨_, rfl, rfl⟩, TaskQueue.assignee_of_put
            (u := TaskQueue.finished task result now.isoformat) rfl (fun h => by cases h)⟩
      | false =>
          have hstep := (TaskQueue.step_of_known hget).2.2.1 error true now later
          rw [CoordinatorNode.reportOp, if_neg Bool.false_ne_true, hstep]
          split
          · exact ⟨⟨_, rfl, rfl⟩, TaskQueue.assignee_of_put (u := TaskQueue.retried task) rfl
              (fun h => by cases h)⟩
          · exact ⟨⟨_, rfl, rfl⟩, TaskQueue.assignee_of_put
              (u := TaskQueue.givenUp task error now.isoformat) rfl (fun h => by cases h)⟩

theorem Received.step_iff {d : Delivery} (hsound : d.node.taskQueue.Sound) (h : d.Received)
    (call : Call) : (d.step call).Received ↔ d.Pushless call := by
  cases call with
  | submitTask s uuid now ticks =>
      exact received_pass_iff h (hsound.step (.enqueue (d.node.submittedTask s uuid) uuid now))
        ⟨_, rfl, rfl⟩ (TaskQueue.assignee_of_put
          (u := TaskQueue.enqueued (d.node.submittedTask s uuid) uuid now) rfl
          (fun h => by cases h)) rfl rfl
  | heartbeat nodeId data now ticks =>
      exact received_pass_iff h hsound ⟨[], (List.append_nil _).symm, rfl⟩
        (fun id nodeId hn => hn) rfl rfl
  | pollTasks nodeId maxTasks clock =>
      refine iff_of_true ?_ trivial
      obtain ⟨hassigns, hnodes⟩ :=
        CoordinatorNode.pollTasks_assigns d.node nodeId maxTasks clock
      obtain ⟨rs, hrs, hacks⟩ := hassigns.wal
      have hfresh : d.fresh (.pollTasks nodeId maxTasks clock) = TaskQueue.acks rs := fresh_eq hrs
      refine received_poll h (hfresh.trans hacks)
        (fun id hid n hn => (hassigns.others id hid).symm.trans hn) hassigns.nodup ?_ hnodes
      rw [Call.response, List.map_map]
      rfl
  | reportResult taskId nodeId success result error now later =>
      refine iff_of_true ?_ trivial
      obtain ⟨⟨rs, hrs, hacks⟩, hothers⟩ :=
        reportOp_spec d.node.taskQueue taskId success result error now later
      have hqueue : (d.node.step
          (Call.reportResult taskId nodeId success result error now later).event).taskQueue =
            d.node.taskQueue.step
              (CoordinatorNode.reportOp taskId success result error now later) := by
        rw [Call.event, CoordinatorNode.step, CoordinatorNode.reportResult_eq]
      have hfresh : d.fresh (.reportResult taskId nodeId success result error now later) = [] :=
        (fresh_eq (hqueue ▸ hrs)).trans hacks
      refine (received_push_iff h hfresh (fun id _ n hn => hothers id n ?_) rfl
        fun id hid => absurd hid List.not_mem_nil).mpr rfl
      rw [← hqueue]
      exact hn

theorem along_received_iff (config : CoordinatorConfig) (clock : Nat → Moment)
    {wal : List WalRecord} (hwal : wal.countP (TaskQueue.enqueues "") = 0) (calls : List Call) :
    Always step Received (begin config clock wal) calls ↔
      Steps step Pushless (begin config clock wal) calls := by
  refine along_iff_steps (fun d => d.node.taskQueue.Sound) (fun d call hd => sound_step hd call)
    (fun d call hsound hd => ?_) ⟨TaskQueue.init_logged clock wal, hwal⟩ ?_ calls
  · rw [and_true]
    exact hd.step_iff hsound call
  · exact fun id hid => absurd hid (Finset.notMem_empty id)

/-- Every assignment reaches its worker as long as only polls assign. -/
theorem received_iff (config : CoordinatorConfig) (clock : Nat → Moment)
    {wal : List WalRecord} (hwal : wal.countP (TaskQueue.enqueues "") = 0) (calls : List Call) :
    Always step Received (begin config clock wal) calls ↔
      Steps step Pushless (begin config clock wal) calls :=
  along_received_iff config clock hwal calls

/-- A node that is not yet seen alive is left alone by the scheduler and polls
for its task. -/
theorem received_iff_polled :
    Always step Received (begin {} (fun _ => default) [])
      [.heartbeat "n" {} 0 fun _ => ⟨default, "", id⟩,
        .submitTask { goal := "g" } "1" default fun _ => ⟨default, "", id⟩,
        .pollTasks "n" 1 fun _ => default] := by
  refine (received_iff {} (fun _ => default) rfl _).mpr
    ⟨trivial, .inl ?_, trivial, .inr ?_, trivial, trivial, trivial⟩
  · decide +kernel
  · decide +kernel

/-- A poll hands out no task that is ASSIGNED already: what the call that
assigns a task does not hand out is not handed out while it is assigned. -/
theorem not_mem_response {d : Delivery} {call : Call} {id nodeId : String}
    (h : d.node.taskQueue.assignee id = some nodeId) (n : String) :
    (id, n) ∉ call.response d.node := by
  cases call with
  | pollTasks node maxTasks clock =>
      intro hmem
      obtain ⟨task, htask, he⟩ := List.mem_map.mp hmem
      have hqueued := (CoordinatorNode.pollTasks_assigns d.node node maxTasks clock).1.queued id
        (List.mem_map.mpr ⟨task, htask, congrArg Prod.fst he⟩)
      rw [TaskQueue.assignee_eq_none (by rw [hqueued]; decide)] at h
      cases h
  | submitTask s uuid now ticks => exact List.not_mem_nil
  | heartbeat nodeId data now ticks => exact List.not_mem_nil
  | reportResult taskId nodeId success result error now later => exact List.not_mem_nil

theorem count_handed_of_assigned {d : Delivery} {id nodeId : String}
    (hcount : d.handed.count (id, nodeId) = 0) (call : Call)
    (h : d.node.taskQueue.assignee id = some nodeId) :
    (d.step call).handed.count (id, nodeId) = 0 := by
  rw [count_handed rfl, hcount, ite_self, Nat.zero_add]
  exact List.count_eq_zero.mpr (not_mem_response h nodeId)

theorem count_handed_foldl {d : Delivery} {id nodeId : String}
    (hcount : d.handed.count (id, nodeId) = 0) (calls : List Call)
    (h : Always step (fun d => d.node.taskQueue.assignee id = some nodeId) d calls) :
    (calls.foldl step d).handed.count (id, nodeId) = 0 := by
  induction calls generalizing d with
  | nil => exact hcount
  | cons call calls ih => exact ih (count_handed_of_assigned hcount call h.1) h.2.2

/-- A node registers, is seen alive and gets a task from the scheduler. -/
def pushed : List Call :=
  [.heartbeat "n" {} 0 fun _ => ⟨default, "", id⟩, .heartbeat "n" {} 0 fun _ => ⟨default, "", id⟩,
    .submitTask { goal := "g" } "1" default fun _ => ⟨default, "", id⟩]

/-- Whatever is called from then on, the node is not handed the task as long
as it is assigned to it. -/
theorem never_received :
    let d := pushed.foldl step (begin {} (fun _ => default) [])
    d.node.taskQueue.assignee "task-1" = some "n" ∧
      ∀ calls, Always step (fun d => d.node.taskQueue.assignee "task-1" = some "n") d calls →
        (calls.foldl step d).handed.count ("task-1", "n") = 0 :=
  ⟨by decide +kernel, fun calls h => count_handed_foldl (by decide +kernel) calls h⟩

end Delivery

end Prodinamik.Grid
