import Prodinamik.Grid.Capacity

namespace Prodinamik.Grid

open Lib Lib.Run

/-! What the calls do to the number of tasks a node owns, and to its slots. -/

namespace TaskQueue

theorem owned_step_le (q : TaskQueue) (op : Op) (n : String) :
    (q.step op).owned n ≤ q.owned n +
      match op with
      | .acknowledge _ nodeId _ => if n = nodeId then 1 else 0
      | _ => 0 := by
  cases op with
  | enqueue task uuid now =>
      exact owned_put_le (u := enqueued task uuid now) rfl (fun h => by cases h) n
  | dequeue affinity => exact (owned_of_tasks rfl n).le
  | acknowledge id nodeId now =>
      cases hget : q.tasks.get id with
      | none =>
          rw [(step_of_unknown hget).1]
          exact Nat.le_add_right _ _
      | some task =>
          have hput := owned_put (q := q) (r := q.assign task nodeId now)
            (u := assignedTo task nodeId now) rfl n
          rw [(step_of_known hget).1]
          by_cases hn : n = nodeId
          · simp only [hn, if_true] at hput ⊢
            have hone : (if (assignedTo task nodeId now).status = .assigned ∧
              (assignedTo task nodeId now).assignedNode = nodeId then 1 else 0) ≤ 1 := by
                split <;> omega
            omega
          · have hother : ¬ ((assignedTo task nodeId now).status = .assigned ∧
                (assignedTo task nodeId now).assignedNode = n) := fun h => hn h.2.symm
            rw [if_neg hother] at hput
            simp only [hn, if_false]
            omega
  | complete id result now =>
      cases hget : q.tasks.get id with
      | none => rw [(step_of_unknown hget).2.1]; rfl
      | some task =>
          rw [(step_of_known hget).2.1]
          exact owned_put_le (u := finished task result now.isoformat) rfl (fun h => by cases h) n
  | fail id error retry now later =>
      cases hget : q.tasks.get id with
      | none => rw [(step_of_unknown hget).2.2.1]; rfl
      | some task =>
          rw [(step_of_known hget).2.2.1]
          split
          · exact owned_put_le (u := retried task) rfl (fun h => by cases h) n
          · exact owned_put_le (u := givenUp task error now.isoformat) rfl (fun h => by cases h) n
  | cancel id =>
      cases hget : q.tasks.get id with
      | none => rw [(step_of_unknown hget).2.2.2]; rfl
      | some task =>
          rw [(step_of_known hget).2.2.2]
          exact owned_put_le (u := dropped task) rfl (fun h => by cases h) n

end TaskQueue

namespace AgentRegistry

variable {r : AgentRegistry} {q q' : TaskQueue}

theorem Holds.of_le {n : String} (h : r.Holds q n) (hle : q'.owned n ≤ q.owned n) :
    r.Holds q' n := by
  intro info hinfo
  have := h info hinfo
  omega

theorem holds_foldl {ops : List TaskQueue.Op} (h : ∀ n, r.Holds q n)
    (hops : Steps TaskQueue.step r.HasSlot q ops) (n : String) :
    r.Holds (ops.foldl TaskQueue.step q) n := by
  induction ops generalizing q with
  | nil => exact h n
  | cons op ops ih =>
      obtain ⟨hslot, hrest⟩ := steps_cons.mp hops
      refine ih (fun m => ?_) hrest
      have hstep := TaskQueue.owned_step_le q op m
      cases op with
      | acknowledge id nodeId now =>
          by_cases hm : m = nodeId
          · obtain ⟨info, hnode, -, -, hless⟩ := hslot
            intro info' hnode'
            simp only [hm, if_true] at hstep hnode' ⊢
            rw [hnode] at hnode'
            cases hnode'
            omega
          · simp only [hm, if_false] at hstep
            exact (h m).of_le hstep
      | enqueue | dequeue | complete | fail | cancel => exact (h m).of_le hstep

theorem getNode_registerNode_of_ne (r : AgentRegistry) {nodeId n : String} (hn : n ≠ nodeId)
    (capabilities : Option (List String)) (maxWorkers : Int) :
    (r.registerNode nodeId capabilities maxWorkers).getNode n = r.getNode n := by
  rw [registerNode]
  cases hget : r.nodes.get nodeId with
  | none => exact Table.get_put_of_ne hn
  | some existing =>
      have hid : existing.nodeId = nodeId := Table.key_of_get hget
      refine Table.get_put_of_ne ?_
      exact hid.symm ▸ hn

theorem getNode_noteHeartbeat_of_ne (r : AgentRegistry) {nodeId n : String} (hn : n ≠ nodeId)
    (data : HeartbeatData) (now : Int) :
    (CoordinatorNode.noteHeartbeat r nodeId data now).getNode n = r.getNode n := by
  rw [CoordinatorNode.noteHeartbeat, heartbeat]
  cases hget : r.nodes.get nodeId with
  | none => exact r.getNode_registerNode_of_ne hn _ _
  | some info =>
      have hid : info.nodeId = nodeId := Table.key_of_get hget
      refine Table.get_put_of_ne ?_
      exact hid.symm ▸ hn

theorem holds_markUnhealthy {n : String} (h : r.Holds q n) (nodeId : String) :
    (r.markUnhealthy nodeId).Holds q n := by
  intro info hinfo
  rw [markUnhealthy] at hinfo
  cases hget : r.nodes.get nodeId with
  | none =>
      rw [hget] at hinfo
      exact h info hinfo
  | some old =>
      have hid : old.nodeId = nodeId := Table.key_of_get hget
      rw [hget] at hinfo
      simp only [getNode, Table.get_put] at hinfo
      split at hinfo
      case isTrue hn =>
        have hold : r.getNode n = some old := by
          rw [getNode, hn, hid, hget]
        obtain rfl := Option.some.inj hinfo
        exact h old hold
      case isFalse => exact h info hinfo

theorem getNode_cleanup {clock : Nat → Int} {n : String} {info : NodeInfo}
    (h : (r.cleanupStaleNodes clock).getNode n = some info) : r.getNode n = some info := by
  have hunregister : ∀ (r : AgentRegistry) (nodeId : String),
      (r.unregisterNode nodeId).getNode n = some info → r.getNode n = some info := by
    intro r nodeId hn
    rw [unregisterNode] at hn
    cases hget : r.nodes.get nodeId with
    | none =>
        rw [hget] at hn
        exact hn
    | some old =>
        rw [hget] at hn
        obtain ⟨hrow, hkey⟩ := Table.get_eq_some.mp hn
        exact Table.get_eq_some.mpr ⟨(Table.mem_rows_erase.mp hrow).1, hkey⟩
  have hloop : ∀ f : AgentRegistry → NodeInfo × Nat → AgentRegistry,
      (∀ r m, f r m = r ∨ ∃ nodeId, f r m = r.unregisterNode nodeId) →
      ∀ (ns : List (NodeInfo × Nat)) (r : AgentRegistry),
        (ns.foldl f r).getNode n = some info → r.getNode n = some info := by
    intro f hf ns
    induction ns with
    | nil => exact fun r hn => hn
    | cons m ns ih =>
        intro r hn
        have hrest := ih _ hn
        obtain hkeep | ⟨nodeId, hgone⟩ := hf r m
        · rwa [hkeep] at hrest
        · rw [hgone] at hrest
          exact hunregister r nodeId hrest
  refine hloop _ (fun r' m => ?_) _ r h
  split
  · exact .inl rfl
  · split
    · exact .inr ⟨_, rfl⟩
    · exact .inl rfl

end AgentRegistry

namespace CoordinatorNode

/-- The scheduler takes no task away from a node. -/
theorem le_owned_assignLoop (registry : AgentRegistry) (ticks : Nat → Tick) (k : Nat)
    {q : TaskQueue} (hq : q.Sound) (n : String) :
    q.owned n ≤ (Scheduler.assignLoop registry ticks k q).2.owned n := by
  induction k generalizing q with
  | zero => exact le_rfl
  | succ k ih =>
      obtain ⟨r, htasks, -, hr, heq | ⟨task, hget, hstatus, heq | ⟨nodeId, hsound, heq⟩⟩⟩ :=
        Scheduler.assignLoop_succ registry ticks k hq
      · rw [heq, ← TaskQueue.owned_of_tasks htasks]
      · have hname : (TaskQueue.enqueued task (ticks k).uuid (ticks k).toMoment).taskId =
            task.taskId := if_neg (hr.2.ne hr.1 hget)
        have hnone : r.assignee task.taskId = none :=
          TaskQueue.assignee_eq_none (by rw [TaskQueue.statusOf_of_get hget, hstatus]; decide)
        have hput := TaskQueue.owned_put (q := r)
          (r := r.enqueue task (ticks k).uuid (ticks k).toMoment)
          (u := TaskQueue.enqueued task (ticks k).uuid (ticks k).toMoment) rfl n
        rw [hname, hnone, if_neg (by simp)] at hput
        rw [heq, ← TaskQueue.owned_of_tasks htasks]
        show r.owned n ≤ (r.enqueue task (ticks k).uuid (ticks k).toMoment).owned n
        omega
      · rw [heq, ← TaskQueue.owned_of_tasks htasks]
        refine le_trans ?_ (ih hsound)
        rw [TaskQueue.owned_assign hget hstatus]
        exact Nat.le_add_right _ _

theorem owned_reassignTask_le (registry : AgentRegistry) (q : TaskQueue) (taskId : String)
    (now : Moment) (later : Int) (n : String) :
    (reassignTask registry q taskId now later).owned n ≤ q.owned n := by
  rw [reassignTask]
  cases hget : q.tasks.get taskId with
  | none => exact le_rfl
  | some task =>
      simp only
      cases registry.getNode task.assignedNode with
      | none => exact le_rfl
      | some node =>
          simp only
          split
          case isFalse => exact le_rfl
          case isTrue =>
            let q₁ : TaskQueue := { q with tasks := q.tasks.put { task with assignedNode := "" } }
            have hid : task.taskId = taskId := Table.key_of_get hget
            have hcleared : q₁.tasks.get taskId = some { task with assignedNode := "" } := by
              rw [← hid]
              exact Table.get_put_self _ _
            have hclear := TaskQueue.owned_put (q := q) (r := q₁)
              (u := { task with assignedNode := "" }) rfl n
            have hassignee : (q₁.assignee task.taskId = some n) ↔
                (task.status = .assigned ∧ "" = n) := by
              rw [hid, TaskQueue.assignee, TaskQueue.getTask, hcleared]
              by_cases hstatus : task.status = .assigned <;> simp [hstatus]
            have hfail : ∀ u : Task, u.taskId = task.taskId → u.status ≠ .assigned →
                ∀ q' : TaskQueue, q'.tasks = q₁.tasks.put u → q'.owned n ≤ q.owned n := by
              intro u hu hstatus q' htasks
              have hput := TaskQueue.owned_put htasks n
              have hnot : ¬ (u.status = .assigned ∧ u.assignedNode = n) := fun h => hstatus h.1
              rw [if_neg hnot, hu] at hput
              simp only [hassignee] at hput
              simp only at hclear
              omega
            have hstep := (TaskQueue.step_of_known hcleared).2.2.1 "Node lost" true now later
            rw [TaskQueue.step] at hstep
            rw [hstep]
            split
            · exact hfail (TaskQueue.retried { task with assignedNode := "" }) rfl
                (fun h => by cases h) _ rfl
            · exact hfail (TaskQueue.givenUp { task with assignedNode := "" } "Node lost"
                now.isoformat) rfl (fun h => by cases h) _ rfl

theorem owned_reassignPass_le (c : CoordinatorNode) (clock : Nat → Moment × Int) (n : String) :
    (c.reassignPass clock).taskQueue.owned n ≤ c.taskQueue.owned n :=
  reassignPass_induction (motive := fun q => q.owned n ≤ c.taskQueue.owned n) le_rfl
    (fun q taskId now later h => (owned_reassignTask_le _ q taskId now later n).trans h) clock

theorem owned_tryAssign (c : CoordinatorNode) (h : c.taskQueue.Sound) (ticks : Nat → Tick)
    (n : String) : c.taskQueue.owned n ≤ (c.tryAssign ticks).taskQueue.owned n :=
  le_owned_assignLoop c.agentRegistry ticks _ h n

/-- What a queue operation that assigns nothing does to a coordinator. -/
theorem within_of_le {c c' : CoordinatorNode} (h : c.Within)
    (hregistry : c'.agentRegistry = c.agentRegistry)
    (hle : ∀ n, c'.taskQueue.owned n ≤ c.taskQueue.owned n) : c'.Within := by
  intro n
  rw [hregistry]
  exact (h n).of_le (hle n)

theorem within_iff_room {c : CoordinatorNode} (hsound : c.taskQueue.Sound) (h : c.Within)
    (a : Action) : ((c.act a).Within ∧ c.Placed a) ↔ c.Room a := by
  have hplain : (c.act a).Within → c.Room a = True → (c.placements a).2.2 = [] →
      (((c.act a).Within ∧ c.Placed a) ↔ c.Room a) := by
    intro hwithin hroom hops
    rw [Placed, hops, hroom]
    exact iff_of_true ⟨hwithin, trivial⟩ trivial
  cases a with
  | call call =>
      cases call with
      | submitTask s uuid now ticks =>
          have hplaced : c.Placed (.call (.submitTask s uuid now ticks)) ↔
              c.Room (.call (.submitTask s uuid now ticks)) :=
            Scheduler.steps_assignOps_iff c.agentRegistry ticks _ _
          rw [← hplaced, and_iff_right_iff_imp]
          intro hops n
          have hbegin : ∀ m, c.agentRegistry.Holds
              (c.taskQueue.enqueue (c.submittedTask s uuid) uuid now) m :=
            fun m => (h m).of_le
              (TaskQueue.owned_step_le c.taskQueue (.enqueue (c.submittedTask s uuid) uuid now) m)
          have hqueue : (c.act (.call (.submitTask s uuid now ticks))).taskQueue = _ :=
            submitTask_taskQueue c s uuid now ticks
          rw [hqueue]
          exact AgentRegistry.holds_foldl hbegin hops n
      | heartbeat nodeId data now ticks =>
          have hplaced : c.Placed (.call (.heartbeat nodeId data now ticks)) ↔
              Scheduler.PassRoom (noteHeartbeat c.agentRegistry nodeId data now) ticks c.taskQueue :=
            Scheduler.steps_assignOps_iff (noteHeartbeat c.agentRegistry nodeId data now) ticks _ _
          rw [Room, ← hplaced]
          refine and_congr_left fun hops => ?_
          constructor
          · intro hwithin
            exact (hwithin nodeId).of_le (owned_tryAssign
              { c with agentRegistry := noteHeartbeat c.agentRegistry nodeId data now } hsound
              ticks nodeId)
          · intro hnode n
            have hbegin : ∀ m, (noteHeartbeat c.agentRegistry nodeId data now).Holds
                c.taskQueue m := by
              intro m
              by_cases hm : m = nodeId
              · rw [hm]
                exact hnode
              · intro info hinfo
                rw [c.agentRegistry.getNode_noteHeartbeat_of_ne hm] at hinfo
                exact h m info hinfo
            have hqueue : (c.act (.call (.heartbeat nodeId data now ticks))).taskQueue = _ :=
              heartbeat_taskQueue c nodeId data now ticks
            rw [hqueue]
            exact AgentRegistry.holds_foldl hbegin hops n
      | pollTasks nodeId maxTasks clock =>
          have hplaced : c.Placed (.call (.pollTasks nodeId maxTasks clock)) ↔
              c.Room (.call (.pollTasks nodeId maxTasks clock)) := by
            rw [Placed, Room, placements]
            cases hnode : c.agentRegistry.getNode nodeId with
            | none => exact iff_of_true trivial fun node hn => absurd hn (Option.some_ne_none node).symm
            | some node =>
                have hid : node.nodeId = nodeId := Table.key_of_get hnode
                have hpoll := steps_pollOps_iff (hid.symm ▸ hnode) clock
                  (min maxTasks (max 0 (node.maxWorkers - node.activeWorkers))).toNat c.taskQueue
                simp only [Option.some.injEq, forall_eq']
                exact hpoll
          rw [← hplaced, and_iff_right_iff_imp]
          intro hops n
          have hqueue : (c.act (.call (.pollTasks nodeId maxTasks clock))).taskQueue = _ :=
            pollTasks_taskQueue c nodeId maxTasks clock
          have hregistry : (c.act (.call (.pollTasks nodeId maxTasks clock))).agentRegistry =
              c.agentRegistry := by
            rw [act, Call.event, step, pollTasks]
            cases c.agentRegistry.getNode nodeId <;> rfl
          rw [hqueue, hregistry]
          exact AgentRegistry.holds_foldl h hops n
      | reportResult taskId nodeId success result error now later =>
          refine hplain ?_ rfl rfl
          rw [act, Call.event, step, reportResult_eq]
          refine within_of_le h rfl fun n => ?_
          have hle := TaskQueue.owned_step_le c.taskQueue
            (reportOp taskId success result error now later) n
          cases success with
          | true => exact hle
          | false => exact hle
  | registerNode nodeId capabilities maxWorkers =>
      have hplaced : c.Placed (.registerNode nodeId capabilities maxWorkers) := trivial
      rw [and_iff_left hplaced, Room]
      constructor
      · exact fun hwithin => hwithin nodeId
      · intro hnode n
        by_cases hn : n = nodeId
        · rw [hn]
          exact hnode
        · intro info hinfo
          rw [act, c.agentRegistry.getNode_registerNode_of_ne hn] at hinfo
          exact h n info hinfo
  | markUnhealthy nodeId =>
      exact hplain (fun n => AgentRegistry.holds_markUnhealthy (h n) nodeId) rfl rfl
  | cancelTask taskId =>
      refine hplain (within_of_le h ?_ fun n => ?_) rfl rfl
      · rw [act, step, cancelTask]
        cases c.taskQueue.cancel taskId <;> rfl
      · rw [act, cancelTask_eq]
        exact TaskQueue.owned_step_le c.taskQueue (.cancel taskId) n
  | timeouts pass =>
      refine hplain ?_ rfl rfl
      rw [act, timeoutPass_eq hsound.1]
      exact h
  | reassign clock =>
      exact hplain (within_of_le h rfl fun n => owned_reassignPass_le c clock n) rfl rfl
  | cleanup clock =>
      exact hplain (fun n info hinfo => h n info (AgentRegistry.getNode_cleanup hinfo)) rfl rfl

/-- Tasks go only to nodes that are alive, healthy and have a slot left, and no
node ever owns more than it has slots, exactly if the nodes have room for what
each call assigns. -/
theorem capacity_run (config : CoordinatorConfig) (clock : Nat → Moment) {wal : List WalRecord}
    (hwal : wal.countP (TaskQueue.enqueues "") = 0) (actions : List Action) :
    Along act Within Placed (start config clock wal) actions ↔
      Steps act Room (start config clock wal) actions := by
  refine along_iff_steps (fun c => c.taskQueue.Sound) (fun c a hc => act_sound hc a)
    (fun c a hsound hc => within_iff_room hsound hc a)
    ⟨TaskQueue.init_logged clock wal, hwal⟩ ?_ actions
  intro n info hinfo
  cases hinfo

/-- A node with one worker slot, and a task that asks for its capability. -/
def oneTask : List Action :=
  [.registerNode "n" (some ["llm"]) 1, .call (.heartbeat "n" {} 0 (standing 0)),
    .call (.submitTask { goal := "g", tools := ["llm"] } "1" ⟨0, ""⟩ (standing 0))]

theorem capacity_run_oneTask :
    Along act Within Placed (start {} (fun _ => default) []) oneTask := by
  refine (capacity_run {} (fun _ => default) rfl _).mpr
    ⟨trivial, ?_, trivial, ⟨?_, ?_⟩, trivial, ?_, trivial⟩
  · intro info hinfo
    have hnode : some info = some ⟨"n", ["llm"], 1, 0, none, true⟩ :=
      hinfo.symm.trans (by decide +kernel)
    cases hnode
    decide +kernel
  · intro info hinfo
    have hnode : some info = some ⟨"n", ["llm"], 1, 0, some 0, true⟩ :=
      hinfo.symm.trans (by decide +kernel)
    cases hnode
    decide +kernel
  · intro nodeId hn
    exact absurd hn List.not_mem_nil
  · intro nodeId hn info hinfo
    generalize hsent : Scheduler.sent _ _ _ _ = nodes at hn ⊢
    have hnodes : nodes = ["n"] := hsent.symm.trans (by decide +kernel)
    rw [hnodes, List.mem_singleton] at hn
    subst hn
    have hnode : some info = some ⟨"n", ["llm"], 1, 0, some 0, true⟩ :=
      hinfo.symm.trans (by decide +kernel)
    cases hnode
    rw [hnodes]
    decide +kernel

/-- A second task that asks for the capability goes to the node as well. -/
theorem not_within :
    let actions := oneTask ++
      [.call (.submitTask { goal := "h", tools := ["llm"] } "2" ⟨1, ""⟩ (standing 1))]
    let c := actions.foldl act (start {} (fun _ => default) [])
    (c.agentRegistry.getNode "n").map NodeInfo.maxWorkers = some 1 ∧
      c.taskQueue.owned "n" = 2 ∧
      ¬ Along act Within Placed (start {} (fun _ => default) []) actions := by
  intro actions c
  have hslots : (c.agentRegistry.getNode "n").map NodeInfo.maxWorkers = some 1 := by decide +kernel
  have howned : c.taskQueue.owned "n" = 2 := by decide +kernel
  refine ⟨hslots, howned, fun h => ?_⟩
  obtain ⟨info, hnode, hone⟩ := Option.map_eq_some_iff.mp hslots
  have hwithin := h.last "n" info hnode
  rw [hone] at hwithin
  have htwo : ((c.taskQueue.owned "n" : Nat) : Int) = 2 := by rw [howned]; rfl
  have hle : (2 : Int) ≤ max 0 1 := htwo ▸ hwithin
  exact absurd hle (by decide)

end CoordinatorNode

end Prodinamik.Grid
