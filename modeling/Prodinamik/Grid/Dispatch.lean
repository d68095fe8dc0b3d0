import Prodinamik.Grid.Scheduler
import Prodinamik.Lib.Run

namespace Prodinamik.Grid

open Lib Lib.Run

/-- A fail of the task would put it back. -/
def TaskQueue.Retries (q : TaskQueue) (id : String) (retry : Bool) : Prop :=
  ∃ task ∈ q.getTask id, retry ∧ (task.retryCount : Int) < task.maxRetries

instance (q : TaskQueue) (id : String) (retry : Bool) : Decidable (q.Retries id retry) :=
  inferInstanceAs (Decidable (∃ task ∈ q.getTask id, retry ∧ (task.retryCount : Int) < task.maxRetries))

/-- A queue and the tasks dequeue has returned since they were last put into
it. -/
structure Dispatch where
  queue : TaskQueue
  handed : Finset String

namespace Dispatch

inductive Event
  | op (op : TaskQueue.Op)
  | tryAssign (registry : AgentRegistry) (ticks : Nat → Tick)
  | restart (clock : Nat → Moment)
  | reopen (clock : Nat → Moment)

def handedAfter (d : Dispatch) : TaskQueue.Op → Finset String
  | .enqueue task uuid now => d.handed.erase (TaskQueue.enqueued task uuid now).taskId
  | .dequeue affinity =>
      match (d.queue.dequeue affinity).1 with
      | none => d.handed
      | some task => insert task.taskId d.handed
  | .fail id _ retry _ _ => if d.queue.Retries id retry then d.handed.erase id else d.handed
  | .acknowledge _ _ _ => d.handed
  | .complete _ _ _ => d.handed
  | .cancel _ => d.handed

def afterOp (d : Dispatch) (op : TaskQueue.Op) : Dispatch := ⟨d.queue.step op, d.handedAfter op⟩

/-- The operations of one pass of the scheduler. -/
def passOps (d : Dispatch) (registry : AgentRegistry) (ticks : Nat → Tick) : List TaskQueue.Op :=
  Scheduler.assignOps registry ticks (min 50 d.queue.queueDepth) d.queue

/-- A restart finds the log as the crash left it, a reopening as close did. -/
def step (d : Dispatch) : Event → Dispatch
  | .op op => d.afterOp op
  | .tryAssign registry ticks => (d.passOps registry ticks).foldl afterOp d
  | .restart clock => { d with queue := .init clock d.queue.wal }
  | .reopen clock => { d with queue := .init clock d.queue.compactWal }

theorem queue_foldl (ops : List TaskQueue.Op) (d : Dispatch) :
    (ops.foldl afterOp d).queue = ops.foldl TaskQueue.step d.queue := by
  induction ops generalizing d with
  | nil => rfl
  | cons op ops ih => exact ih (d.afterOp op)

/-- The queue goes through the pass as try_assign takes it. -/
theorem queue_tryAssign (d : Dispatch) (registry : AgentRegistry) (ticks : Nat → Tick) :
    (d.step (.tryAssign registry ticks)).queue =
      (Scheduler.tryAssign registry ticks d.queue).2 := by
  rw [step, queue_foldl, passOps, ← Scheduler.assignLoop_snd, Scheduler.tryAssign]

/-- A queued task has one live heap entry unless it is out; no other has one. -/
def Single (d : Dispatch) : Prop :=
  ∀ id, d.queue.live.countP (fun e => e.taskId = id) =
    if d.queue.statusOf id = some .queued ∧ id ∉ d.handed then 1 else 0

/-- What dequeue returns is not out already. -/
def FreshOp (d : Dispatch) : TaskQueue.Op → Prop
  | .dequeue affinity => ∀ task ∈ (d.queue.dequeue affinity).1, task.taskId ∉ d.handed
  | _ => True

def Fresh (d : Dispatch) : Event → Prop
  | .op op => d.FreshOp op
  | .tryAssign registry ticks => Steps afterOp FreshOp d (d.passOps registry ticks)
  | .restart _ => True
  | .reopen _ => True

def AllowedOp (d : Dispatch) : TaskQueue.Op → Prop
  | .enqueue task uuid now => d.queue.held (TaskQueue.enqueued task uuid now).taskId = 0
  | .fail id _ retry _ _ => d.queue.Retries id retry → d.queue.held id = 0
  | _ => True

/-- When a task is put into the queue no entry of it is left in the heap, and
none is out that a replay would put there again. -/
def Allowed (d : Dispatch) : Event → Prop
  | .op op => d.AllowedOp op
  | .tryAssign _ _ => True
  | .restart _ =>
      ∀ id, d.queue.statusOf id = some .queued →
        d.queue.wal.countP (TaskQueue.enqueues id) = 1 ∧ id ∉ d.handed
  | .reopen _ => ∀ id, ∀ s ∈ d.queue.statusOf id, s.Open → id ∉ d.handed

/-- Single in terms of all the entries a heap has of a queued task. -/
def Tight (d : Dispatch) : Prop :=
  ∀ id, d.queue.statusOf id = some .queued → d.queue.held id = if id ∈ d.handed then 0 else 1

theorem single_iff {d : Dispatch} : d.Single ↔ d.Tight := by
  refine forall_congr' fun id => ?_
  rw [TaskQueue.countP_live]
  by_cases hq : d.queue.statusOf id = some .queued
  · by_cases hh : id ∈ d.handed
    · simp [hq, hh]
    · simp [hq, hh]
  · simp [hq]

theorem sound_step {d : Dispatch} (h : d.queue.Sound) (event : Event) : (d.step event).queue.Sound := by
  cases event with
  | op op => exact h.step op
  | tryAssign registry ticks =>
      rw [step, queue_foldl]
      exact h.foldl _
  | restart clock => exact ⟨TaskQueue.init_logged clock _, h.2⟩
  | reopen clock => exact ⟨TaskQueue.init_logged clock _, h.named_compactWal⟩

/-- Nothing is put into the heap and no task becomes queued. -/
theorem Tight.of_le {d d' : Dispatch} (h : d.Tight) (hheap : d'.queue.heap = d.queue.heap)
    (hhanded : d'.handed = d.handed)
    (hstatus : ∀ id, d'.queue.statusOf id = some .queued → d.queue.statusOf id = some .queued) :
    d'.Tight := by
  intro id hid
  have hheld : d'.queue.held id = d.queue.held id := by
    rw [TaskQueue.held, TaskQueue.held, hheap]
  rw [hheld, hhanded]
  exact h id (hstatus id hid)

/-- One task is put into the heap and is no longer out. -/
theorem Tight.push_iff {d d' : Dispatch} (h : d.Tight) {e : PrioritizedTask}
    (hheap : d'.queue.heap = d.queue.heap.push e) (hhanded : d'.handed = d.handed.erase e.taskId)
    (hstatus : ∀ id, d'.queue.statusOf id =
      if id = e.taskId then some .queued else d.queue.statusOf id) :
    d'.Tight ↔ d.queue.held e.taskId = 0 := by
  have hheld : ∀ id, d'.queue.held id =
      d.queue.held id + if e.taskId = id then 1 else 0 := by
    intro id
    rw [TaskQueue.held, hheap, LazyHeap.countP_push]
    simp [TaskQueue.held]
  constructor
  · intro h'
    have := h' e.taskId (by rw [hstatus, if_pos rfl])
    rw [hheld, hhanded, if_pos rfl, if_neg (Finset.notMem_erase _ _)] at this
    omega
  · intro hzero id hid
    rw [hheld, hhanded]
    by_cases hsame : id = e.taskId
    · rw [hsame, hzero, if_pos rfl, if_neg (Finset.notMem_erase _ _)]
    · rw [hstatus, if_neg hsame] at hid
      rw [if_neg (Ne.symm hsame), Nat.add_zero, h id hid]
      simp [hsame]

theorem Tight.dequeue {d : Dispatch} (h : d.Tight) (affinity : String) :
    (d.afterOp (.dequeue affinity)).Tight ∧ d.FreshOp (.dequeue affinity) := by
  have hheld : ∀ id, d.queue.statusOf id = some .queued → d.queue.held id =
      (d.queue.dequeue affinity).2.held id +
        if ∃ task ∈ (d.queue.dequeue affinity).1, task.taskId = id then 1 else 0 :=
    fun id hid => TaskQueue.held_dequeue hid
  cases hdequeue : (d.queue.dequeue affinity).1 with
  | none =>
      refine ⟨fun id hid => ?_, fun task htask => ?_⟩
      · have hhanded : d.handedAfter (.dequeue affinity) = d.handed := by
          rw [handedAfter, hdequeue]
        have hid' : d.queue.statusOf id = some .queued := hid
        have hafter := hheld id hid'
        rw [hdequeue, if_neg (by simp), h id hid'] at hafter
        rw [afterOp, hhanded]
        exact hafter.symm
      · rw [hdequeue] at htask
        cases htask
  | some task =>
      obtain ⟨e, -, hget, htaskId, hstatus⟩ := TaskQueue.dequeue_eq_some hdequeue
      have hqueued : d.queue.statusOf task.taskId = some .queued := by
        rw [htaskId, TaskQueue.statusOf_of_get hget, hstatus]
      have hone := hheld task.taskId hqueued
      rw [hdequeue, if_pos ⟨task, rfl, rfl⟩, h task.taskId hqueued] at hone
      have hout : task.taskId ∉ d.handed := by
        intro hmem
        rw [if_pos hmem] at hone
        omega
      have hhanded : d.handedAfter (.dequeue affinity) = insert task.taskId d.handed := by
        rw [handedAfter, hdequeue]
      refine ⟨fun id hid => ?_, fun task' htask' => ?_⟩
      · have hid' : d.queue.statusOf id = some .queued := hid
        rw [afterOp, hhanded]
        by_cases hsame : id = task.taskId
        · rw [if_neg hout] at hone
          rw [hsame, if_pos (Finset.mem_insert_self _ _)]
          exact Nat.succ.inj hone.symm
        · have hafter := hheld id hid'
          rw [hdequeue, if_neg (by simpa using Ne.symm hsame), h id hid'] at hafter
          simp only [Finset.mem_insert, hsame, false_or]
          exact hafter.symm
      · rw [hdequeue] at htask'
        cases htask'
        exact hout

theorem Tight.settled {d : Dispatch} (h : d.Tight) {op : TaskQueue.Op} {u : Task}
    (hheap : (d.queue.step op).heap = d.queue.heap) (hhanded : d.handedAfter op = d.handed)
    (htasks : (d.queue.step op).tasks = d.queue.tasks.put u) (hu : u.status ≠ .queued) :
    (d.afterOp op).Tight := by
  refine h.of_le hheap hhanded fun id hid => ?_
  have hput := TaskQueue.statusOf_put htasks id
  have hid' : (d.queue.step op).statusOf id = some .queued := hid
  rw [hput] at hid'
  split at hid'
  case isTrue => exact absurd (Option.some.inj hid') hu
  case isFalse => exact hid'

theorem Tight.unknown {d : Dispatch} (h : d.Tight) {op : TaskQueue.Op}
    (hstep : d.queue.step op = d.queue) (hhanded : d.handedAfter op = d.handed) :
    (d.afterOp op).Tight := by
  have : d.afterOp op = d := by rw [afterOp, hstep, hhanded]
  rwa [this]

theorem Tight.fail_iff {d : Dispatch} (h : d.Tight) (id error : String) (retry : Bool)
    (now : Moment) (later : Int) :
    (d.afterOp (.fail id error retry now later)).Tight ↔
      d.AllowedOp (.fail id error retry now later) := by
  cases hget : d.queue.tasks.get id with
  | none =>
      have hretries : ¬ d.queue.Retries id retry := by
        rintro ⟨task, htask, -⟩
        rw [TaskQueue.getTask, hget] at htask
        cases htask
      refine iff_of_true ?_ fun hr => absurd hr hretries
      exact h.unknown ((TaskQueue.step_of_unknown hget).2.2.1 error retry now later)
        (if_neg hretries)
  | some task =>
      obtain rfl := Table.key_of_get hget
      have hstep := (TaskQueue.step_of_known hget).2.2.1 error retry now later
      have hiff : d.queue.Retries task.taskId retry ↔
          retry ∧ (task.retryCount : Int) < task.maxRetries := by
        rw [TaskQueue.Retries, TaskQueue.getTask, hget]
        simp
      by_cases hretry : retry ∧ (task.retryCount : Int) < task.maxRetries
      · rw [if_pos hretry] at hstep
        have hpush : (d.afterOp (.fail task.taskId error retry now later)).Tight ↔
            d.queue.held task.taskId = 0 := by
          refine h.push_iff (e := TaskQueue.entryOf task now.time) (by rw [afterOp, hstep]; rfl)
            (if_pos (hiff.mpr hretry)) fun id' => ?_
          refine TaskQueue.statusOf_put (u := TaskQueue.retried task) ?_ id'
          rw [afterOp, hstep]
          rfl
        exact hpush.trans ⟨fun hheld _ => hheld, fun hallowed => hallowed (hiff.mpr hretry)⟩
      · rw [if_neg hretry] at hstep
        refine iff_of_true ?_ fun hr => absurd (hiff.mp hr) hretry
        exact h.settled (u := TaskQueue.givenUp task error now.isoformat)
          (by rw [hstep]; rfl) (if_neg (mt hiff.mp hretry)) (by rw [hstep]; rfl) (fun h => by cases h)

theorem Tight.afterOp_iff {d : Dispatch} (h : d.Tight) (op : TaskQueue.Op) :
    ((d.afterOp op).Tight ∧ d.FreshOp op) ↔ d.AllowedOp op := by
  cases op with
  | enqueue task uuid now =>
      refine (and_iff_left trivial).trans ?_
      exact h.push_iff (e := TaskQueue.entryOf (TaskQueue.enqueued task uuid now) now.time) rfl rfl
        fun id => TaskQueue.statusOf_put (u := TaskQueue.enqueued task uuid now) rfl id
  | dequeue affinity => exact iff_of_true (h.dequeue affinity) trivial
  | acknowledge id nodeId now =>
      refine iff_of_true ⟨?_, trivial⟩ trivial
      cases hget : d.queue.tasks.get id with
      | none => exact h.unknown ((TaskQueue.step_of_unknown hget).1 nodeId now) rfl
      | some task =>
          have hstep := (TaskQueue.step_of_known hget).1 nodeId now
          exact h.settled (u := TaskQueue.assignedTo task nodeId now) (by rw [hstep]; rfl) rfl
            (by rw [hstep]; rfl) (fun h => by cases h)
  | complete id result now =>
      refine iff_of_true ⟨?_, trivial⟩ trivial
      cases hget : d.queue.tasks.get id with
      | none => exact h.unknown ((TaskQueue.step_of_unknown hget).2.1 result now) rfl
      | some task =>
          have hstep := (TaskQueue.step_of_known hget).2.1 result now
          exact h.settled (u := TaskQueue.finished task result now.isoformat)
            (by rw [hstep]; rfl) rfl (by rw [hstep]; rfl) (fun h => by cases h)
  | fail id error retry now later =>
      exact (and_iff_left trivial).trans (h.fail_iff id error retry now later)
  | cancel id =>
      refine iff_of_true ⟨?_, trivial⟩ trivial
      cases hget : d.queue.tasks.get id with
      | none => exact h.unknown (TaskQueue.step_of_unknown hget).2.2.2 rfl
      | some task =>
          have hstep := (TaskQueue.step_of_known hget).2.2.2
          exact h.settled (u := TaskQueue.dropped task) (by rw [hstep]; rfl) rfl
            (by rw [hstep]; rfl) (fun h => by cases h)

/-- The scheduler puts back only what it has just taken out. -/
theorem steps_assignOps (registry : AgentRegistry) (ticks : Nat → Tick) (k : Nat) {d : Dispatch}
    (hsound : d.queue.Sound) (h : d.Tight) :
    Steps afterOp AllowedOp d (Scheduler.assignOps registry ticks k d.queue) := by
  induction k generalizing d with
  | zero => trivial
  | succ k ih =>
      refine ⟨trivial, trivial, ?_⟩
      have htaken := h.dequeue ""
      cases hdequeue : (d.queue.dequeue "").1 with
      | none => trivial
      | some task =>
          simp only
          cases Scheduler.chooseNode registry (ticks k) task with
          | some nodeId =>
              refine ⟨trivial, trivial, ?_⟩
              exact ih (d := (d.afterOp (.dequeue "")).afterOp (.acknowledge task.taskId nodeId _))
                ((hsound.step (.dequeue "")).step (.acknowledge task.taskId nodeId _))
                ((htaken.1.afterOp_iff (.acknowledge task.taskId nodeId _)).mpr trivial).1
          | none =>
              refine ⟨trivial, ?_, trivial⟩
              obtain ⟨e, -, hget, htaskId, hstatus⟩ := TaskQueue.dequeue_eq_some hdequeue
              have hid : (TaskQueue.enqueued task (ticks k).uuid (ticks k).toMoment).taskId =
                  task.taskId := if_neg (hsound.2.ne hsound.1 hget)
              have hqueued : (d.afterOp (.dequeue "")).queue.statusOf task.taskId = some .queued :=
                Eq.trans (b := d.queue.statusOf task.taskId) rfl
                  (by rw [htaskId, TaskQueue.statusOf_of_get hget, hstatus])
              have hheld := htaken.1 task.taskId hqueued
              have hout : task.taskId ∈ (d.afterOp (.dequeue "")).handed := by
                rw [afterOp, handedAfter, hdequeue]
                exact Finset.mem_insert_self _ _
              rw [if_pos hout] at hheld
              rw [AllowedOp, hid]
              exact hheld

theorem Tight.tryAssign {d : Dispatch} (hsound : d.queue.Sound) (h : d.Tight)
    (registry : AgentRegistry) (ticks : Nat → Tick) :
    (d.step (.tryAssign registry ticks)).Tight ∧ d.Fresh (.tryAssign registry ticks) := by
  have hallowed := steps_assignOps registry ticks (min 50 d.queue.queueDepth) hsound h
  have hrun : Along afterOp Tight FreshOp d (d.passOps registry ticks) := by
    refine (along_iff_steps (fun _ => True) (fun _ _ _ => trivial) (fun d op _ hd => ?_) trivial h
      _).mpr hallowed
    exact Tight.afterOp_iff hd op
  exact ⟨hrun.last, hrun.imp (fun _ _ => trivial) fun _ _ hfresh => hfresh⟩

theorem Tight.restart_iff {d : Dispatch} (hsound : d.queue.Sound) (clock : Nat → Moment) :
    (d.step (.restart clock)).Tight ↔ d.Allowed (.restart clock) := by
  refine forall_congr' fun id => ?_
  have hstatus : (d.step (.restart clock)).queue.statusOf id = d.queue.statusOf id :=
    (TaskQueue.statusOf_replay clock _ id).trans (hsound.1 id).symm
  have hheld : (d.step (.restart clock)).queue.held id =
      d.queue.wal.countP (TaskQueue.enqueues id) :=
    TaskQueue.countP_replay_heap clock id d.queue.wal
  rw [hstatus, hheld]
  refine imp_congr_right fun hqueued => ?_
  have hpos := (hsound.1.isSome_statusOf id).mp (by rw [hqueued]; rfl)
  have hhanded : (d.step (.restart clock)).handed = d.handed := rfl
  rw [hhanded]
  by_cases hmem : id ∈ d.handed
  · simp only [hmem, if_true, not_true_eq_false, and_false, iff_false]
    omega
  · simp [hmem]

theorem Tight.reopen_iff {d : Dispatch} (clock : Nat → Moment) :
    (d.step (.reopen clock)).Tight ↔ d.Allowed (.reopen clock) := by
  refine forall_congr' fun id => ?_
  have hstatus : (d.step (.reopen clock)).queue.statusOf id =
      if (d.queue.statusOf id).any (TaskStatus.Open ·) then some .queued else none :=
    (TaskQueue.statusOf_replay clock _ id).trans (d.queue.walStatus_compactWal id)
  have hheld : (d.step (.reopen clock)).queue.held id =
      if (d.queue.statusOf id).any (TaskStatus.Open ·) then 1 else 0 :=
    (TaskQueue.countP_replay_heap clock id _).trans (d.queue.countP_compactWal id)
  have hhanded : (d.step (.reopen clock)).handed = d.handed := rfl
  rw [hstatus, hheld, hhanded]
  cases d.queue.statusOf id with
  | none => simp
  | some s => by_cases ho : s.Open <;> by_cases hmem : id ∈ d.handed <;> simp [ho, hmem]

theorem Tight.step_iff {d : Dispatch} (hsound : d.queue.Sound) (h : d.Tight) (event : Event) :
    ((d.step event).Tight ∧ d.Fresh event) ↔ d.Allowed event := by
  cases event with
  | op op => exact h.afterOp_iff op
  | tryAssign registry ticks => exact iff_of_true (h.tryAssign hsound registry ticks) trivial
  | restart clock => exact (and_iff_left trivial).trans (Tight.restart_iff hsound clock)
  | reopen clock => exact (and_iff_left trivial).trans (Tight.reopen_iff clock)

def start : Dispatch := ⟨.empty, ∅⟩

theorem along_single_iff (events : List Event) :
    Along step Single Fresh start events ↔ Steps step Allowed start events := by
  refine along_iff_steps (fun d => d.queue.Sound) (fun d event hd => sound_step hd event)
    (fun d event hsound hd => ?_) (s := start) ⟨fun id => rfl, rfl⟩ (single_iff.mpr ?_) events
  · rw [single_iff]
    exact (single_iff.mp hd).step_iff hsound event
  · intro id hid
    cases hid

end Dispatch

end Prodinamik.Grid
