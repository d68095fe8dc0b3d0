import Prodinamik.Grid.Service
import Prodinamik.Grid.Waiting

namespace Prodinamik.Grid

open Lib Lib.Run

namespace AgentRegistry

/-- The node of an assignment is alive and healthy and has a worker slot left. -/
def HasSlot (r : AgentRegistry) (q : TaskQueue) : TaskQueue.Op → Prop
  | .acknowledge _ nodeId now =>
      ∃ info, r.getNode nodeId = some info ∧ info.isAlive r.heartbeatTtl now.time = true ∧
        info.isHealthy = true ∧ (q.owned nodeId : Int) < info.maxWorkers
  | _ => True

/-- The node has as many worker slots as it owns tasks. -/
def Holds (r : AgentRegistry) (q : TaskQueue) (nodeId : String) : Prop :=
  ∀ info, r.getNode nodeId = some info → (q.owned nodeId : Int) ≤ max 0 info.maxWorkers

theorem getNode_of_mem {r : AgentRegistry} {info : NodeInfo} (h : info ∈ r.nodes.rows) :
    r.getNode info.nodeId = some info := Table.get_eq_some.mpr ⟨h, rfl⟩

/-- The node that is picked is alive and healthy, whatever its load. -/
theorem findBestNode_usable {r : AgentRegistry} {tick : Tick} {affinity capability nodeId : String}
    (h : r.findBestNode tick affinity capability = some nodeId) :
    ∃ info, r.getNode nodeId = some info ∧ r.usable tick info = true := by
  have hcapability : ∀ {c info}, info ∈ r.findByCapability tick c →
      info ∈ r.nodes.rows ∧ r.usable tick info = true := by
    intro c info hinfo
    obtain ⟨hmem, husable⟩ := List.mem_filter.mp ((List.mem_insertionSort _).mp hinfo)
    obtain ⟨n, -, hget⟩ := List.mem_filterMap.mp hmem
    exact ⟨(Table.get_eq_some.mp hget).1, husable⟩
  rw [findBestNode] at h
  obtain ⟨info, hhead, rfl⟩ := Option.map_eq_some_iff.mp h
  have hcandidate := (List.mem_insertionSort _).mp (List.mem_of_mem_head? hhead)
  have hpick : ∀ {matching : List NodeInfo},
      (∀ n ∈ matching, n ∈ r.nodes.rows ∧ r.usable tick n = true) →
      info ∈ (if matching = [] then
        r.nodes.rows.filter fun n => r.usable tick n && 0 < n.availableSlots else matching) →
      info ∈ r.nodes.rows ∧ r.usable tick info = true := by
    intro matching hmatching hinfo
    split at hinfo
    · obtain ⟨hrow, hfree⟩ := List.mem_filter.mp hinfo
      rw [Bool.and_eq_true] at hfree
      exact ⟨hrow, hfree.1⟩
    · exact hmatching info hinfo
  have hinfo := hpick (fun n hn => by
    split at hn
    · exact hcapability hn
    · split at hn
      · exact hcapability hn
      · cases hn) hcandidate
  exact ⟨info, getNode_of_mem hinfo.1, hinfo.2⟩

end AgentRegistry

namespace Scheduler

/-- The nodes the scheduler picks for the tasks that wait, up to the first one
that finds none. -/
def sent (registry : AgentRegistry) (ticks : Nat → Tick) : Nat → List Task → List String
  | k + 1, task :: tasks =>
      match chooseNode registry (ticks k) task with
      | some nodeId => nodeId :: sent registry ticks k tasks
      | none => []
  | _, _ => []

def passOps (registry : AgentRegistry) (ticks : Nat → Tick) (q : TaskQueue) : List TaskQueue.Op :=
  assignOps registry ticks (min 50 q.queueDepth) q

/-- Each node has slots for the tasks it owns and for those that a pass sends
to it. -/
def PassRoom (registry : AgentRegistry) (ticks : Nat → Tick) (q : TaskQueue) : Prop :=
  let nodes := sent registry ticks (min 50 q.queueDepth) q.waiting
  ∀ nodeId ∈ nodes, ∀ info, registry.getNode nodeId = some info →
    (q.owned nodeId : Int) + nodes.count nodeId ≤ info.maxWorkers

theorem chooseNode_usable {registry : AgentRegistry} {tick : Tick} {task : Task} {nodeId : String}
    (h : chooseNode registry tick task = some nodeId) :
    ∃ info, registry.getNode nodeId = some info ∧ registry.usable tick info = true := by
  have hbest : ∀ {a c n}, (registry.findBestNode tick a c).filter (fun n => n ≠ "") = some n →
      ∃ info, registry.getNode n = some info ∧ registry.usable tick info = true :=
    fun h => AgentRegistry.findBestNode_usable (Option.filter_eq_some_iff.mp h).1
  rw [chooseNode] at h
  simp only [Option.orElse_eq_orElse, Option.orElse_eq_or, Option.or_eq_some_iff] at h
  rcases h with h | ⟨-, h | ⟨-, h⟩⟩
  · split at h
    · cases h
    · exact hbest h
  · obtain ⟨-, tool, -, -, hfound, -⟩ := List.findSome?_eq_some_iff.mp h
    exact hbest hfound
  · exact hbest h

/-- The first of the nodes takes one slot of its own. -/
theorem room_cons_iff {registry : AgentRegistry} {nodes : List String} {nodeId : String}
    {info : NodeInfo} (hnode : registry.getNode nodeId = some info) (owned : String → Nat) :
    ((owned nodeId : Int) < info.maxWorkers ∧
      ∀ n ∈ nodes, ∀ info', registry.getNode n = some info' →
        ((owned n + if n = nodeId then 1 else 0 : Nat) : Int) + nodes.count n ≤
          info'.maxWorkers) ↔
      ∀ n ∈ nodeId :: nodes, ∀ info', registry.getNode n = some info' →
        (owned n : Int) + (nodeId :: nodes).count n ≤ info'.maxWorkers := by
  have hcount : ∀ n, (nodeId :: nodes).count n = nodes.count n + if n = nodeId then 1 else 0 := by
    intro n
    rw [List.count_cons]
    by_cases hn : n = nodeId
    · simp [hn]
    · simp [hn, Ne.symm hn]
  constructor
  · rintro ⟨hless, hrest⟩ n hn info' hnode'
    rw [hcount]
    by_cases hlater : n ∈ nodes
    · have := hrest n hlater info' hnode'
      omega
    · obtain rfl := (List.mem_cons.mp hn).resolve_right hlater
      rw [hnode] at hnode'
      cases hnode'
      rw [List.count_eq_zero.mpr hlater, if_pos rfl]
      omega
  · intro h
    constructor
    · have := h nodeId List.mem_cons_self info hnode
      rw [hcount, if_pos rfl] at this
      omega
    · intro n hn info' hnode'
      have := h n (List.mem_cons_of_mem _ hn) info' hnode'
      rw [hcount] at this
      omega

theorem steps_assignOps_iff (registry : AgentRegistry) (ticks : Nat → Tick) (k : Nat)
    (q : TaskQueue) :
    Steps TaskQueue.step registry.HasSlot q (assignOps registry ticks k q) ↔
      ∀ nodeId ∈ sent registry ticks k q.waiting, ∀ info, registry.getNode nodeId = some info →
        (q.owned nodeId : Int) + (sent registry ticks k q.waiting).count nodeId ≤
          info.maxWorkers := by
  induction k generalizing q with
  | zero => exact iff_of_true trivial fun nodeId h => absurd h List.not_mem_nil
  | succ k ih =>
      rw [assignOps]
      cases hdequeue : q.dequeue "" with
      | mk found r =>
          have hstep : q.step (.dequeue "") = r := by rw [TaskQueue.step, hdequeue]
          have htasks : r.tasks = q.tasks := (congrArg (TaskQueue.tasks ∘ Prod.snd) hdequeue).symm
          cases found with
          | none =>
              rw [TaskQueue.waiting_eq_nil (TaskQueue.live_eq_nil (congrArg Prod.fst hdequeue))]
              exact iff_of_true ⟨trivial, trivial, trivial⟩ fun nodeId h => absurd h List.not_mem_nil
          | some task =>
              obtain ⟨e, -, hget, htaskId, hstatus⟩ :=
                TaskQueue.dequeue_eq_some (congrArg Prod.fst hdequeue)
              rw [← htaskId, ← htasks] at hget
              simp only
              cases hchoose : chooseNode registry (ticks k) task with
              | none =>
                  rw [TaskQueue.waiting_dequeue hdequeue "" default, sent, hchoose]
                  exact iff_of_true ⟨trivial, trivial, trivial, trivial, trivial⟩
                    fun nodeId h => absurd h List.not_mem_nil
              | some nodeId =>
                  obtain ⟨info, hnode, husable⟩ := chooseNode_usable hchoose
                  rw [AgentRegistry.usable, Bool.and_eq_true] at husable
                  have hassign := (TaskQueue.step_of_known hget).1 nodeId (ticks k).toMoment
                  have howned : ∀ n, (r.assign task nodeId (ticks k).toMoment).owned n =
                      q.owned n + if n = nodeId then 1 else 0 := by
                    intro n
                    rw [TaskQueue.owned_assign hget hstatus, TaskQueue.owned_of_tasks htasks]
                  have hslot : registry.HasSlot r (.acknowledge task.taskId nodeId
                      (ticks k).toMoment) ↔ (q.owned nodeId : Int) < info.maxWorkers := by
                    rw [AgentRegistry.HasSlot, TaskQueue.owned_of_tasks htasks]
                    constructor
                    · rintro ⟨info', hnode', -, -, hless⟩
                      rw [hnode] at hnode'
                      cases hnode'
                      exact hless
                    · exact fun hless => ⟨info, hnode, husable.1, husable.2, hless⟩
                  rw [TaskQueue.waiting_dequeue hdequeue nodeId (ticks k).toMoment, sent, hchoose]
                  have hfree : registry.HasSlot q (.dequeue "") := trivial
                  rw [steps_cons, and_iff_right hfree, hstep]
                  simp only
                  rw [steps_cons, hslot, hassign, ih]
                  simp only [howned]
                  exact room_cons_iff hnode q.owned

end Scheduler

namespace CoordinatorNode

def dequeueOps (node : NodeInfo) (q : TaskQueue) : List TaskQueue.Op :=
  if ((q.dequeue (node.capabilities.headD "")).1).isSome then
    [.dequeue (node.capabilities.headD "")]
  else [.dequeue (node.capabilities.headD ""), .dequeue ""]

/-- The operations the loop of poll_tasks makes of the queue. -/
def pollOps (node : NodeInfo) (clock : Nat → Moment) : Nat → TaskQueue → List TaskQueue.Op
  | 0, _ => []
  | k + 1, q =>
      dequeueOps node q ++
        match (dequeueFor node q).1 with
        | none => []
        | some task =>
            .acknowledge task.taskId node.nodeId (clock k) ::
              pollOps node clock k
                ((dequeueFor node q).2.step (.acknowledge task.taskId node.nodeId (clock k)))

/-- If there is anything to hand out, the node is healthy, alive each time, and
has slots for the tasks it owns and for what it gets. -/
def PollRoom (registry : AgentRegistry) (q : TaskQueue) (node : NodeInfo) (k : Nat)
    (clock : Nat → Moment) : Prop :=
  let n := min k q.waiting.length
  n = 0 ∨ (node.isHealthy = true ∧ (q.owned node.nodeId : Int) + n ≤ node.maxWorkers ∧
    ∀ i < n, node.isAlive registry.heartbeatTtl (clock (k - 1 - i)).time = true)

theorem dequeueOps_foldl (node : NodeInfo) (q : TaskQueue) :
    (dequeueOps node q).foldl TaskQueue.step q = (dequeueFor node q).2 := by
  have hfirst : q.step (.dequeue (node.capabilities.headD "")) =
      (q.dequeue (node.capabilities.headD "")).2 := rfl
  rw [dequeueOps, dequeueFor]
  cases hdequeue : q.dequeue (node.capabilities.headD "") with
  | mk found r =>
      rw [hdequeue] at hfirst
      cases found with
      | some task => exact hfirst
      | none =>
          rw [if_neg (by simp), List.foldl_cons, hfirst]
          rfl

theorem steps_dequeueOps (registry : AgentRegistry) (node : NodeInfo) (q : TaskQueue) :
    Steps TaskQueue.step registry.HasSlot q (dequeueOps node q) := by
  rw [dequeueOps]
  split
  · exact ⟨trivial, trivial, trivial⟩
  · exact ⟨trivial, trivial, trivial, trivial, trivial⟩

theorem pollLoop_snd (node : NodeInfo) (clock : Nat → Moment) (k : Nat) (q : TaskQueue) :
    (pollLoop node clock k q).2 = (pollOps node clock k q).foldl TaskQueue.step q := by
  induction k generalizing q with
  | zero => rfl
  | succ k ih =>
      rw [pollLoop, pollOps, List.foldl_append, dequeueOps_foldl]
      cases hdequeue : dequeueFor node q with
      | mk found r =>
          cases found with
          | none => rfl
          | some task => exact ih _

/-- What dequeueFor leaves of the entries that can be given out. -/
theorem dequeueFor_live (node : NodeInfo) (q : TaskQueue) :
    ((dequeueFor node q).1 = none → q.live = []) ∧
      ∀ task, (dequeueFor node q).1 = some task →
        task.taskId ∈ q.live.map PrioritizedTask.taskId ∧
          ∀ e, e.taskId ≠ task.taskId → (e ∈ (dequeueFor node q).2.live ↔ e ∈ q.live) := by
  have htaken : ∀ {q : TaskQueue} {affinity task}, (q.dequeue affinity).1 = some task →
      task.taskId ∈ q.live.map PrioritizedTask.taskId ∧
        ∀ e, e.taskId ≠ task.taskId → (e ∈ (q.dequeue affinity).2.live ↔ e ∈ q.live) := by
    intro q affinity task h
    obtain ⟨first, hfind, -, htaskId, -⟩ := TaskQueue.dequeue_eq_some h
    refine ⟨List.mem_map.mpr ⟨first, List.mem_of_find?_eq_some hfind, htaskId.symm⟩, ?_⟩
    intro e he
    rw [TaskQueue.live_dequeue, (LazyHeap.perm_cons_eraseP hfind).mem_iff, List.mem_cons]
    have hne : e ≠ first := fun h => he (h ▸ htaskId.symm)
    simp [hne]
  have hkept : ∀ {q : TaskQueue} {affinity}, (q.dequeue affinity).1 = none →
      (q.dequeue affinity).2.live = q.live := by
    intro q affinity h
    rw [TaskQueue.live_dequeue]
    exact List.eraseP_of_forall_not fun e he =>
      List.find?_eq_none.mp (TaskQueue.dequeue_eq_none h) e he
  rw [dequeueFor]
  cases hdequeue : q.dequeue (node.capabilities.headD "") with
  | mk found r =>
      have hfst : (q.dequeue (node.capabilities.headD "")).1 = found := congrArg Prod.fst hdequeue
      have hsnd : (q.dequeue (node.capabilities.headD "")).2 = r := congrArg Prod.snd hdequeue
      cases found with
      | some task =>
          refine ⟨fun h => (Option.some_ne_none task h).elim, fun task' h => ?_⟩
          obtain rfl := Option.some.inj h
          rw [← hsnd]
          exact htaken hfst
      | none =>
          have hlive : r.live = q.live := hsnd ▸ hkept hfst
          refine ⟨fun h => ?_, fun task h => ?_⟩
          · rw [← hlive]
            exact TaskQueue.live_eq_nil h
          · rw [← hlive]
            exact htaken h

theorem length_waiting_dequeueFor {node : NodeInfo} {q : TaskQueue} {task : Task}
    (h : (dequeueFor node q).1 = some task) (nodeId : String) (now : Moment) :
    q.waiting.length = ((dequeueFor node q).2.assign task nodeId now).waiting.length + 1 := by
  obtain ⟨hmem, hothers⟩ := (dequeueFor_live node q).2 task h
  have hset : (((dequeueFor node q).2.assign task nodeId now).live.map
      PrioritizedTask.taskId).toFinset =
        (q.live.map PrioritizedTask.taskId).toFinset.erase task.taskId := by
    ext id
    rw [Finset.mem_erase, List.mem_toFinset, List.mem_toFinset, List.mem_map, List.mem_map,
      TaskQueue.live_assign]
    constructor
    · rintro ⟨e, he, rfl⟩
      obtain ⟨hlive, hne⟩ := List.mem_filter.mp he
      have hother : e.taskId ≠ task.taskId := by simpa using hne
      exact ⟨hother, e, (hothers e hother).mp hlive, rfl⟩
    · rintro ⟨hother, e, he, rfl⟩
      exact ⟨e, List.mem_filter.mpr ⟨(hothers e hother).mpr he, by simpa using hother⟩, rfl⟩
  rw [TaskQueue.length_waiting, TaskQueue.length_waiting, hset,
    Finset.card_erase_add_one (List.mem_toFinset.mpr hmem)]

theorem steps_pollOps_iff {registry : AgentRegistry} {node : NodeInfo}
    (hnode : registry.getNode node.nodeId = some node) (clock : Nat → Moment) (k : Nat)
    (q : TaskQueue) :
    Steps TaskQueue.step registry.HasSlot q (pollOps node clock k q) ↔
      PollRoom registry q node k clock := by
  induction k generalizing q with
  | zero => exact iff_of_true trivial (Or.inl (Nat.zero_min _))
  | succ k ih =>
      rw [pollOps, steps_append, and_iff_right (steps_dequeueOps registry node q),
        dequeueOps_foldl]
      cases hfound : (dequeueFor node q).1 with
      | none =>
          have hempty := TaskQueue.waiting_eq_nil ((dequeueFor_live node q).1 hfound)
          exact iff_of_true trivial (Or.inl (by rw [hempty]; exact Nat.min_zero _))
      | some task =>
          obtain ⟨htasks, -, hget⟩ := dequeueFor_spec node q
          obtain ⟨hget, hstatus⟩ := hget task hfound
          rw [← htasks] at hget
          have hassign := (TaskQueue.step_of_known hget).1 node.nodeId (clock k)
          have howned : ((dequeueFor node q).2.assign task node.nodeId (clock k)).owned
              node.nodeId = q.owned node.nodeId + 1 := by
            rw [TaskQueue.owned_assign hget hstatus, TaskQueue.owned_of_tasks htasks, if_pos rfl]
          have hslot : registry.HasSlot (dequeueFor node q).2
              (.acknowledge task.taskId node.nodeId (clock k)) ↔
                node.isAlive registry.heartbeatTtl (clock k).time = true ∧
                  node.isHealthy = true ∧ (q.owned node.nodeId : Int) < node.maxWorkers := by
            rw [AgentRegistry.HasSlot, TaskQueue.owned_of_tasks htasks, hnode]
            simp
          have hn : min (k + 1) q.waiting.length =
              min k ((dequeueFor node q).2.assign task node.nodeId (clock k)).waiting.length + 1 := by
            rw [length_waiting_dequeueFor hfound node.nodeId (clock k), Nat.succ_min_succ]
          simp only
          rw [steps_cons, hassign, hslot, ih, PollRoom, PollRoom, howned, hn]
          generalize min k ((dequeueFor node q).2.assign task node.nodeId
            (clock k)).waiting.length = n
          rw [or_iff_right (Nat.succ_ne_zero n)]
          constructor
          · rintro ⟨⟨halive, hhealthy, hless⟩, hrest⟩
            rcases hrest with rfl | ⟨-, hroom, hlater⟩
            · refine ⟨hhealthy, by omega, fun i hi => ?_⟩
              obtain rfl : i = 0 := by omega
              exact halive
            · refine ⟨hhealthy, by omega, fun i hi => ?_⟩
              cases i with
              | zero => exact halive
              | succ i =>
                  have hi' : k + 1 - 1 - (i + 1) = k - 1 - i := by omega
                  rw [hi']
                  exact hlater i (by omega)
          · rintro ⟨hhealthy, hroom, halive⟩
            refine ⟨⟨halive 0 (by omega), hhealthy, by omega⟩, Or.inr ⟨hhealthy, by omega, ?_⟩⟩
            intro i hi
            have hi' : k - 1 - i = k + 1 - 1 - (i + 1) := by omega
            rw [hi']
            exact halive (i + 1) (by omega)

/-- The registry that the assignments of an action use, the queue they begin
with, and the operations they make of it. -/
def placements (c : CoordinatorNode) : Action → AgentRegistry × TaskQueue × List TaskQueue.Op
  | .call (.submitTask s uuid now ticks) =>
      let q := c.taskQueue.enqueue (c.submittedTask s uuid) uuid now
      (c.agentRegistry, q, Scheduler.passOps c.agentRegistry ticks q)
  | .call (.heartbeat nodeId data now ticks) =>
      let r := noteHeartbeat c.agentRegistry nodeId data now
      (r, c.taskQueue, Scheduler.passOps r ticks c.taskQueue)
  | .call (.pollTasks nodeId maxTasks clock) =>
      (c.agentRegistry, c.taskQueue,
        match c.agentRegistry.getNode nodeId with
        | none => []
        | some node =>
            pollOps node clock (min maxTasks (max 0 (node.maxWorkers - node.activeWorkers))).toNat
              c.taskQueue)
  | _ => (c.agentRegistry, c.taskQueue, [])

/-- Each task an action assigns goes to a node that has a slot for it then. -/
def Placed (c : CoordinatorNode) (a : Action) : Prop :=
  Steps TaskQueue.step (c.placements a).1.HasSlot (c.placements a).2.1 (c.placements a).2.2

/-- No node owns more tasks than it has worker slots. -/
def Within (c : CoordinatorNode) : Prop :=
  ∀ nodeId, c.agentRegistry.Holds c.taskQueue nodeId

/-- The nodes have room for what an action is about to assign, and no node is
left with fewer slots than the tasks it owns. -/
def Room (c : CoordinatorNode) : Action → Prop
  | .call (.submitTask s uuid now ticks) =>
      Scheduler.PassRoom c.agentRegistry ticks
        (c.taskQueue.enqueue (c.submittedTask s uuid) uuid now)
  | .call (.heartbeat nodeId data now ticks) =>
      let r := noteHeartbeat c.agentRegistry nodeId data now
      r.Holds c.taskQueue nodeId ∧ Scheduler.PassRoom r ticks c.taskQueue
  | .call (.pollTasks nodeId maxTasks clock) =>
      ∀ node, c.agentRegistry.getNode nodeId = some node →
        PollRoom c.agentRegistry c.taskQueue node
          (min maxTasks (max 0 (node.maxWorkers - node.activeWorkers))).toNat clock
  | .registerNode nodeId capabilities maxWorkers =>
      (c.agentRegistry.registerNode nodeId capabilities maxWorkers).Holds c.taskQueue nodeId
  | _ => True

theorem submitTask_taskQueue (c : CoordinatorNode) (s : Submission) (uuid : String) (now : Moment)
    (ticks : Nat → Tick) : (c.submitTask s uuid now ticks).taskQueue =
      (c.placements (.call (.submitTask s uuid now ticks))).2.2.foldl TaskQueue.step
        (c.placements (.call (.submitTask s uuid now ticks))).2.1 :=
  Scheduler.assignLoop_snd c.agentRegistry ticks _ _

theorem heartbeat_taskQueue (c : CoordinatorNode) (nodeId : String) (data : HeartbeatData)
    (now : Int) (ticks : Nat → Tick) : (c.heartbeat nodeId data now ticks).taskQueue =
      (c.placements (.call (.heartbeat nodeId data now ticks))).2.2.foldl TaskQueue.step
        c.taskQueue :=
  Scheduler.assignLoop_snd (noteHeartbeat c.agentRegistry nodeId data now) ticks _ _

theorem pollTasks_taskQueue (c : CoordinatorNode) (nodeId : String) (maxTasks : Int)
    (clock : Nat → Moment) : (c.pollTasks nodeId maxTasks clock).2.taskQueue =
      (c.placements (.call (.pollTasks nodeId maxTasks clock))).2.2.foldl TaskQueue.step
        c.taskQueue := by
  rw [pollTasks, placements]
  cases c.agentRegistry.getNode nodeId with
  | none => rfl
  | some node => exact pollLoop_snd node clock _ c.taskQueue

end CoordinatorNode

end Prodinamik.Grid
