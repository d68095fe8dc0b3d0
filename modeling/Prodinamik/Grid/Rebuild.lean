import Prodinamik.Grid.Dequeue
import Prodinamik.Lib.Run

namespace Prodinamik.Grid

open Lib Lib.Run

/-- What a restart has to bring back of a task. -/
structure Shown where
  taskId : String
  status : TaskStatus
  assignedNode : String
  retryCount : Nat
  context : List (String × String)
  tools : List String
  goal : String
  priority : Int
  affinity : String
  maxSteps : Int
  maxRetries : Int
  parentTask : String
  deriving DecidableEq, Repr

def Task.shown (task : Task) : Shown where
  taskId := task.taskId
  status := task.status
  assignedNode := task.assignedNode
  retryCount := task.retryCount
  context := task.context
  tools := task.tools
  goal := task.goal
  priority := task.priority
  affinity := task.affinity
  maxSteps := task.maxSteps
  maxRetries := task.maxRetries
  parentTask := task.parentTask

theorem Task.shown_inj {a b : Task} : a.shown = b.shown ↔
    a.taskId = b.taskId ∧ a.status = b.status ∧ a.assignedNode = b.assignedNode ∧
      a.retryCount = b.retryCount ∧ a.context = b.context ∧ a.tools = b.tools ∧
      a.goal = b.goal ∧ a.priority = b.priority ∧ a.affinity = b.affinity ∧
      a.maxSteps = b.maxSteps ∧ a.maxRetries = b.maxRetries ∧ a.parentTask = b.parentTask :=
  Iff.of_eq (Shown.mk.injEq ..)

theorem Task.taskId_of_shown (a b : Task) (h : a.shown = b.shown) : a.taskId = b.taskId :=
  (Task.shown_inj.mp h).1

namespace TaskQueue

section

variable {a b : Task} (h : a.shown = b.shown)
include h

theorem shown_assignedTo (nodeId : String) (now : Moment) :
    (assignedTo a nodeId now).shown =
      Task.shown { b with status := .assigned, assignedNode := nodeId } := by
  rw [Task.shown_inj] at h ⊢
  exact ⟨h.1, rfl, rfl, h.2.2.2⟩

theorem shown_finished (result : List (String × String)) (completedAt : String) :
    (finished a result completedAt).shown = (finished b result completedAt).shown := by
  rw [Task.shown_inj] at h ⊢
  exact ⟨h.1, rfl, h.2.2⟩

theorem shown_givenUp (error completedAt : String) :
    (givenUp a error completedAt).shown = (givenUp b error completedAt).shown := by
  rw [Task.shown_inj] at h ⊢
  exact ⟨h.1, rfl, h.2.2⟩

theorem shown_dropped : (dropped a).shown = (dropped b).shown := by
  rw [Task.shown_inj] at h ⊢
  exact ⟨h.1, rfl, h.2.2⟩

end

/-- One queue shows the same tasks and ids as another. -/
structure Matches (q r : TaskQueue) : Prop where
  tasks : q.tasks.rows.map Task.shown = r.tasks.rows.map Task.shown
  queued : q.queuedIds = r.queuedIds
  active : q.activeIds = r.activeIds
  completed : q.completedIds = r.completedIds

theorem Matches.get {q r : TaskQueue} (h : q.Matches r) (id : String) :
    (q.tasks.get id).map Task.shown = (r.tasks.get id).map Task.shown :=
  Table.map_get Task.taskId_of_shown h.tasks id

theorem Matches.get_some {q r : TaskQueue} (h : q.Matches r) {id : String} {task : Task}
    (hget : q.tasks.get id = some task) :
    ∃ task', r.tasks.get id = some task' ∧ task.shown = task'.shown := by
  have := h.get id
  rw [hget] at this
  cases hr : r.tasks.get id with
  | none =>
      rw [hr] at this
      cases this
  | some task' =>
      rw [hr] at this
      exact ⟨task', rfl, Option.some.inj this⟩

/-- The step a restart does not show, or shows as it was. -/
def Kept (q : TaskQueue) : Op → Prop
  | .enqueue task _ _ => task.assignedNode = "" ∧ task.retryCount = 0
  | .dequeue _ => True
  | .acknowledge _ _ _ => True
  | .complete id _ _ => (q.getTask id).isSome → id ∉ q.queuedIds
  | .fail id _ retry _ _ =>
      ∀ task ∈ q.getTask id,
        ¬ (retry ∧ (task.retryCount : Int) < task.maxRetries) ∧ id ∉ q.queuedIds
  | .cancel _ => True

theorem Matches.enqueue_iff {q r : TaskQueue} (h : q.Matches r) (m now : Moment) (task : Task)
    (uuid : String) :
    (q.enqueue task uuid now).Matches
        (r.applyRecord m (.enqueue (enqueueData (enqueued task uuid now) now.time))) ↔
      task.assignedNode = "" ∧ task.retryCount = 0 := by
  have hput := Table.map_put_iff Task.taskId_of_shown h.tasks
    (a := enqueued task uuid now)
    (b := taskOfData (enqueueData (enqueued task uuid now) now.time) m) rfl
  have hshown : (enqueued task uuid now).shown =
        (taskOfData (enqueueData (enqueued task uuid now) now.time) m).shown ↔
      task.assignedNode = "" ∧ task.retryCount = 0 := by
    rw [Task.shown_inj]
    simp [enqueued, taskOfData, enqueueData]
  constructor
  · intro h'
    exact hshown.mp (hput.mp h'.tasks)
  · intro hkept
    exact ⟨hput.mpr (hshown.mpr hkept), congrArg (insert _) h.queued, h.active, h.completed⟩

theorem Matches.assign {q r : TaskQueue} (h : q.Matches r) {task : Task} (m now : Moment)
    (nodeId : String) (hget : q.tasks.get task.taskId = some task) :
    (q.assign task nodeId now).Matches (r.applyRecord m (.acknowledge task.taskId nodeId)) := by
  obtain ⟨task', hget', hshown⟩ := h.get_some hget
  rw [applyRecord, hget']
  refine ⟨?_, ?_, ?_, h.completed⟩
  · have hassigned := shown_assignedTo hshown nodeId now
    exact (Table.map_put_iff Task.taskId_of_shown h.tasks
      (Task.taskId_of_shown _ _ hassigned)).mpr hassigned
  · exact congrArg (Finset.erase · task.taskId) h.queued
  · exact congrArg (insert task.taskId) h.active

/-- An operation that ends a task is shown if it takes the task from the
queued ids as the replay does. -/
theorem Matches.settle_iff {q q' r : TaskQueue} (h : q.Matches r) {a b : Task}
    (htasks : q'.tasks = q.tasks.put a) (hactive : q'.activeIds = q.activeIds.erase a.taskId)
    (hcompleted : q'.completedIds = insert a.taskId q.completedIds) (hshown : a.shown = b.shown) :
    q'.Matches (r.settle b) ↔ q'.queuedIds = q.queuedIds.erase a.taskId := by
  have hid := Task.taskId_of_shown a b hshown
  constructor
  · intro h'
    rw [h'.queued, settle, ← h.queued, hid]
  · intro hqueued
    refine ⟨?_, ?_, ?_, ?_⟩
    · rw [htasks]
      exact (Table.map_put_iff Task.taskId_of_shown h.tasks hid).mpr hshown
    · rw [hqueued, h.queued, hid]
      rfl
    · rw [hactive, h.active, hid]
      rfl
    · rw [hcompleted, h.completed, hid]
      rfl

theorem eq_erase_iff {s : Finset String} {id : String} : s = s.erase id ↔ id ∉ s :=
  eq_comm.trans Finset.erase_eq_self

theorem Matches.finish_iff {q r : TaskQueue} (h : q.Matches r) {task : Task} (m now : Moment)
    (result : List (String × String)) (hget : q.tasks.get task.taskId = some task) :
    (q.finish task result now).Matches
        (r.applyRecord m (.complete task.taskId result now.isoformat)) ↔
      task.taskId ∉ q.queuedIds := by
  obtain ⟨task', hget', hshown⟩ := h.get_some hget
  rw [applyRecord, hget', ← eq_erase_iff]
  exact h.settle_iff (a := finished task result now.isoformat) rfl rfl rfl
    (shown_finished hshown result now.isoformat)

theorem Matches.giveUp_iff {q r : TaskQueue} (h : q.Matches r) {task : Task} (m now : Moment)
    (error : String) (hget : q.tasks.get task.taskId = some task) :
    (q.giveUp task error now).Matches
        (r.applyRecord m (.fail task.taskId error now.isoformat)) ↔
      task.taskId ∉ q.queuedIds := by
  obtain ⟨task', hget', hshown⟩ := h.get_some hget
  rw [applyRecord, hget', ← eq_erase_iff]
  exact h.settle_iff (a := givenUp task error now.isoformat) rfl rfl rfl
    (shown_givenUp hshown error now.isoformat)

theorem Matches.drop {q r : TaskQueue} (h : q.Matches r) {task : Task} (m : Moment)
    (hget : q.tasks.get task.taskId = some task) :
    (q.drop task).Matches (r.applyRecord m (.cancel task.taskId)) := by
  obtain ⟨task', hget', hshown⟩ := h.get_some hget
  rw [applyRecord, hget']
  exact (h.settle_iff (a := dropped task) rfl rfl rfl (shown_dropped hshown)).mpr rfl

/-- The record of a retry loses the count it was written for. -/
theorem not_matches_requeue {q r : TaskQueue} {task : Task} (m : Moment) (time later : Int) :
    ¬ (q.requeue task time later).Matches (r.applyRecord m (.enqueue (retryData task later))) := by
  intro h
  have hget := h.get task.taskId
  have hq : (q.requeue task time later).tasks.get (Task.taskId (retried task)) =
      some (retried task) := Table.get_put_self q.tasks (retried task)
  have hr : (r.applyRecord m (.enqueue (retryData task later))).tasks.get
        (Task.taskId (taskOfData (retryData task later) m)) =
      some (taskOfData (retryData task later) m) :=
    Table.get_put_self r.tasks (taskOfData (retryData task later) m)
  have hget := (congrArg (Option.map Task.shown) hq).symm.trans
    (hget.trans (congrArg (Option.map Task.shown) hr))
  have hcount := (Task.shown_inj.mp (Option.some.inj hget)).2.2.2.1
  exact absurd hcount (Nat.succ_ne_zero _)

/-- A queue shows what a restart on its log would bring back. -/
def Same (clock : Nat → Moment) (q : TaskQueue) : Prop := q.Matches (init clock q.wal)

theorem Same.step_iff {clock : Nat → Moment} {q : TaskQueue} (h : q.Same clock) (op : Op) :
    (q.step op).Same clock ↔ q.Kept op := by
  have hr : q.Matches (replay clock q.wal) := ⟨h.tasks, h.queued, h.active, h.completed⟩
  have happend : ∀ (q' : TaskQueue) (r : WalRecord), q'.wal = q.wal ++ [r] →
      (q'.Same clock ↔
        q'.Matches ((replay clock q.wal).applyRecord (clock q.wal.length) r)) := by
    intro q' r hwal
    rw [Same, init, hwal, replay_append_singleton]
    exact ⟨fun h => ⟨h.tasks, h.queued, h.active, h.completed⟩,
      fun h => ⟨h.tasks, h.queued, h.active, h.completed⟩⟩
  cases op with
  | enqueue task uuid now =>
      rw [happend _ _ rfl]
      exact hr.enqueue_iff _ now task uuid
  | dequeue affinity =>
      exact iff_of_true ⟨h.tasks, h.queued, h.active, h.completed⟩ trivial
  | acknowledge id nodeId now =>
      refine iff_of_true ?_ trivial
      cases hget : q.tasks.get id with
      | none => rwa [(step_of_unknown hget).1]
      | some task =>
          obtain rfl := Table.key_of_get hget
          rw [(step_of_known hget).1, happend _ _ rfl]
          exact hr.assign _ now nodeId hget
  | complete id result now =>
      cases hget : q.tasks.get id with
      | none =>
          rw [(step_of_unknown hget).2.1]
          exact iff_of_true h (by simp [Kept, getTask, hget])
      | some task =>
          obtain rfl := Table.key_of_get hget
          rw [(step_of_known hget).2.1, happend _ _ rfl, hr.finish_iff _ now result hget]
          simp [Kept, getTask, hget]
  | fail id error retry now later =>
      cases hget : q.tasks.get id with
      | none =>
          rw [(step_of_unknown hget).2.2.1]
          exact iff_of_true h (by simp [Kept, getTask, hget])
      | some task =>
          obtain rfl := Table.key_of_get hget
          rw [(step_of_known hget).2.2.1]
          simp only [Kept, getTask, hget, Option.mem_some_iff, forall_eq']
          split
          case isTrue hretry =>
            rw [happend _ _ rfl]
            exact iff_of_false (not_matches_requeue _ _ _) (fun hkept => hkept.1 hretry)
          case isFalse hretry =>
            rw [happend _ _ rfl, hr.giveUp_iff _ now error hget]
            exact (and_iff_right hretry).symm
  | cancel id =>
      refine iff_of_true ?_ trivial
      cases hget : q.tasks.get id with
      | none => rwa [(step_of_unknown hget).2.2.2]
      | some task =>
          obtain rfl := Table.key_of_get hget
          rw [(step_of_known hget).2.2.2, happend _ _ rfl]
          exact hr.drop _ hget

/-! The order in which tasks are given out. -/

/-- What a caller sees of the tasks dequeue returns. -/
def serve (q : TaskQueue) (affinities : List String) : List (Option Shown) :=
  (q.dequeues affinities).map (Option.map Task.shown)

theorem serve_cons (q : TaskQueue) (affinity : String) (rest : List String) :
    q.serve (affinity :: rest) =
      (q.dequeue affinity).1.map Task.shown :: (q.dequeue affinity).2.serve rest := rfl

def InOrder (clock : Nat → Moment) (q : TaskQueue) : Prop :=
  ∀ affinities, (init clock q.wal).serve affinities = q.serve affinities

theorem Matches.get_none {q r : TaskQueue} (h : q.Matches r) {id : String}
    (hget : q.tasks.get id = none) : r.tasks.get id = none := by
  have := h.get id
  rw [hget, Option.map_none] at this
  exact Option.map_eq_none_iff.mp this.symm

theorem Matches.stale_eq {q r : TaskQueue} (h : q.Matches r) : q.stale = r.stale := by
  funext e
  rw [stale, stale]
  cases hq : q.tasks.get e.taskId with
  | none => rw [h.get_none hq]
  | some task =>
      obtain ⟨task', hr, hshown⟩ := h.get_some hq
      rw [hr]
      simp only
      rw [(Task.shown_inj.mp hshown).2.1]

theorem Matches.fits_eq {q r : TaskQueue} (h : q.Matches r) (affinity : String) :
    q.fits affinity = r.fits affinity := by
  funext e
  rw [fits, fits]
  cases hq : q.tasks.get e.taskId with
  | none => rw [h.get_none hq]
  | some task =>
      obtain ⟨task', hr, hshown⟩ := h.get_some hq
      rw [hr]
      simp only
      rw [(Task.shown_inj.mp hshown).2.2.2.2.2.2.2.2.1]

theorem serve_congr {q r : TaskQueue} (h : q.Matches r) (hlive : q.live = r.live)
    (affinities : List String) : q.serve affinities = r.serve affinities := by
  induction affinities generalizing q r with
  | nil => rfl
  | cons affinity rest ih =>
      rw [serve_cons, serve_cons, dequeue_fst, dequeue_fst, hlive, h.fits_eq]
      congr 1
      · cases r.live.find? (r.fits affinity) with
        | none => rfl
        | some e => exact h.get e.taskId
      · refine ih ⟨h.tasks, h.queued, h.active, h.completed⟩ ?_
        rw [live_dequeue, live_dequeue, hlive, h.fits_eq]

/-- Every enqueue record of the log carries its timestamp, as those of a log
that was never compacted do. -/
def Stamped (wal : List WalRecord) : Prop :=
  ∀ data, .enqueue data ∈ wal → data.timestamp.isSome

theorem replay_heap_eq {wal : List WalRecord} (h : Stamped wal) (clock clock' : Nat → Moment) :
    (replay clock wal).heap = (replay clock' wal).heap := by
  induction wal using List.reverseRecOn with
  | nil => rfl
  | append_singleton wal r ih =>
      have hwal : Stamped wal := fun data hdata => h data (List.mem_append_left _ hdata)
      rw [replay_append_singleton, replay_append_singleton, applyRecord_heap, applyRecord_heap,
        ih hwal]
      cases r with
      | enqueue data =>
          obtain ⟨time, htime⟩ := Option.isSome_iff_exists.mp (h data (by simp))
          simp [pushedBy, htime]
      | acknowledge id nodeId => rfl
      | complete id result completedAt => rfl
      | fail id error completedAt => rfl
      | cancel id => rfl

/-- The heap a restart builds holds the entries of the heap and those that
have left it. -/
def Covered (clock : Nat → Moment) (q : TaskQueue) : Prop :=
  ∃ gone, (init clock q.wal).heap.entries.Perm (gone ++ q.heap.entries)

theorem Covered.append {clock : Nat → Moment} {q q' : TaskQueue} (h : q.Covered clock)
    {r : WalRecord} (hwal : q'.wal = q.wal ++ [r])
    (hheap : q'.heap = (pushedBy (clock q.wal.length) r).elim q.heap q.heap.push) :
    q'.Covered clock := by
  obtain ⟨gone, hgone⟩ := h
  refine ⟨gone, ?_⟩
  have hreplay : (replay clock q.wal).heap.entries.Perm (gone ++ q.heap.entries) := hgone
  rw [init, hwal, replay_append_singleton, hheap]
  simp only
  rw [applyRecord_heap]
  cases pushedBy (clock q.wal.length) r with
  | none => exact hreplay
  | some e =>
      refine (LazyHeap.push_perm _ e).trans ((hreplay.cons e).trans ?_)
      exact List.perm_middle.symm.trans ((LazyHeap.push_perm _ e).symm.append_left gone)

theorem Covered.step {clock : Nat → Moment} {q : TaskQueue} (h : q.Covered clock) {op : Op}
    (hkept : q.Kept op) : (q.step op).Covered clock := by
  cases op with
  | enqueue task uuid now => exact h.append rfl rfl
  | dequeue affinity =>
      obtain ⟨gone, hgone⟩ := h
      obtain ⟨taken, htaken⟩ :=
        (q.heap.pull_sublist q.stale (q.fits affinity)).exists_perm_append
      refine ⟨gone ++ taken, hgone.trans ?_⟩
      rw [List.append_assoc]
      exact (htaken.trans List.perm_append_comm).append_left gone
  | acknowledge id nodeId now =>
      cases hget : q.tasks.get id with
      | none => rwa [(step_of_unknown hget).1]
      | some task =>
          rw [(step_of_known hget).1]
          exact h.append rfl rfl
  | complete id result now =>
      cases hget : q.tasks.get id with
      | none => rwa [(step_of_unknown hget).2.1]
      | some task =>
          rw [(step_of_known hget).2.1]
          exact h.append rfl rfl
  | fail id error retry now later =>
      cases hget : q.tasks.get id with
      | none => rwa [(step_of_unknown hget).2.2.1]
      | some task =>
          rw [(step_of_known hget).2.2.1, if_neg (hkept task hget).1]
          exact h.append rfl rfl
  | cancel id =>
      cases hget : q.tasks.get id with
      | none => rwa [(step_of_unknown hget).2.2.2]
      | some task =>
          rw [(step_of_known hget).2.2.2]
          exact h.append rfl rfl

/-- No entry of a task that is still QUEUED has been taken from the heap. -/
def NothingOut (q : TaskQueue) : Prop :=
  ∀ id, q.statusOf id = some .queued →
    q.heap.entries.countP (fun e => e.taskId = id) = q.wal.countP (enqueues id)

theorem Covered.nothingOut_iff {clock : Nat → Moment} {q : TaskQueue}
    {gone : List PrioritizedTask}
    (hgone : (init clock q.wal).heap.entries.Perm (gone ++ q.heap.entries)) :
    q.NothingOut ↔ ∀ e ∈ gone, q.stale e = true := by
  have hcount : ∀ id, q.wal.countP (enqueues id) =
      gone.countP (fun e => e.taskId = id) + q.heap.entries.countP (fun e => e.taskId = id) := by
    intro id
    rw [← countP_replay_heap clock, ← List.countP_append]
    exact hgone.countP_eq _
  constructor
  · intro h e he
    by_contra hlive
    have hq := h e.taskId (stale_eq_false_iff.mp (by simpa using hlive))
    rw [hcount] at hq
    have hzero : gone.countP (fun e' => e'.taskId = e.taskId) = 0 := by omega
    exact List.countP_eq_zero.mp hzero e he (by simp)
  · intro h id hid
    have hzero : gone.countP (fun e => e.taskId = id) = 0 := by
      refine List.countP_eq_zero.mpr fun e he hsame => ?_
      rw [decide_eq_true_eq] at hsame
      have hlive := stale_eq_false_iff.mpr (hsame ▸ hid)
      rw [h e he] at hlive
      cases hlive
    rw [hcount, hzero, Nat.zero_add]

theorem live_perm {clock : Nat → Moment} {q : TaskQueue} (h : q.Same clock)
    {gone : List PrioritizedTask}
    (hgone : (init clock q.wal).heap.entries.Perm (gone ++ q.heap.entries)) :
    (init clock q.wal).live.Perm (gone.filter (fun e => !q.stale e) ++ q.live) := by
  rw [live, LazyHeap.live, ← Matches.stale_eq h, live, LazyHeap.live, ← List.filter_append]
  exact hgone.filter _

/-- Calls without an affinity give out the live entries one by one. -/
theorem countP_serve (q : TaskQueue) (n : Nat) :
    (q.serve (List.replicate n "")).countP Option.isSome = min n q.live.length := by
  induction n generalizing q with
  | zero => rfl
  | succ n ih =>
      rw [List.replicate_succ, serve_cons, List.countP_cons, ih, dequeue_fst, live_dequeue]
      cases hlive : q.live with
      | nil => simp
      | cons e es =>
          have he : e ∈ q.live := by rw [hlive]; exact List.mem_cons_self
          have hstale : q.stale e = false := by simpa using (List.mem_filter.mp he).2
          rw [List.find?_cons_of_pos (fits_any he), List.eraseP_cons_of_pos (fits_any he)]
          rw [stale] at hstale
          cases hget : q.tasks.get e.taskId with
          | none => simp [hget] at hstale
          | some task => simp [hget, Nat.succ_min_succ]

theorem inOrder_iff {clock : Nat → Moment} {q : TaskQueue} (h : q.Same clock)
    (hcovered : q.Covered clock) : q.InOrder clock ↔ q.NothingOut := by
  obtain ⟨gone, hgone⟩ := hcovered
  have hperm := live_perm h hgone
  rw [Covered.nothingOut_iff hgone]
  constructor
  · intro horder
    have hlen := hperm.length_eq
    have hserve := congrArg (List.countP Option.isSome)
      (horder (List.replicate (init clock q.wal).live.length ""))
    rw [countP_serve, countP_serve, Nat.min_self] at hserve
    rw [List.length_append] at hlen
    have hnil : (gone.filter fun e => !q.stale e).length = 0 := by omega
    intro e he
    have := List.filter_eq_nil_iff.mp (List.length_eq_zero_iff.mp hnil) e he
    simpa using this
  · intro hstale affinities
    have hnil : (gone.filter fun e => !q.stale e) = [] :=
      List.filter_eq_nil_iff.mpr fun e he => by simp [hstale e he]
    rw [hnil, List.nil_append] at hperm
    have hlive : q.live = (init clock q.wal).live :=
      LazyHeap.eq_of_perm_of_sorted hperm.symm (q.heap.sorted.sublist List.filter_sublist)
        ((init clock q.wal).heap.sorted.sublist List.filter_sublist)
    exact (serve_congr h hlive affinities).symm

theorem Matches.settle {q r : TaskQueue} (h : q.Matches r) {a b : Task}
    (hshown : a.shown = b.shown) : (q.settle a).Matches (r.settle b) :=
  (h.settle_iff rfl rfl rfl hshown).mpr rfl

theorem Matches.applyRecord {q r : TaskQueue} (h : q.Matches r) (m m' : Moment)
    (line : WalRecord) : (q.applyRecord m line).Matches (r.applyRecord m' line) := by
  cases line with
  | enqueue data =>
      refine ⟨?_, congrArg (insert _) h.queued, h.active, h.completed⟩
      exact (Table.map_put_iff Task.taskId_of_shown h.tasks (a := taskOfData data m)
        (b := taskOfData data m') rfl).mpr rfl
  | acknowledge id nodeId =>
      rw [TaskQueue.applyRecord, TaskQueue.applyRecord]
      cases hget : q.tasks.get id with
      | none => rwa [h.get_none hget]
      | some task =>
          obtain ⟨task', hget', hshown⟩ := h.get_some hget
          rw [hget']
          refine ⟨?_, congrArg (Finset.erase · id) h.queued, congrArg (insert id) h.active,
            h.completed⟩
          have hassigned := (shown_assignedTo rfl nodeId m).symm.trans
            (shown_assignedTo hshown nodeId m)
          exact (Table.map_put_iff Task.taskId_of_shown h.tasks
            (Task.taskId_of_shown _ _ hassigned)).mpr hassigned
  | complete id result completedAt =>
      rw [TaskQueue.applyRecord, TaskQueue.applyRecord]
      cases hget : q.tasks.get id with
      | none => rwa [h.get_none hget]
      | some task =>
          obtain ⟨task', hget', hshown⟩ := h.get_some hget
          rw [hget']
          exact h.settle (shown_finished hshown result completedAt)
  | fail id error completedAt =>
      rw [TaskQueue.applyRecord, TaskQueue.applyRecord]
      cases hget : q.tasks.get id with
      | none => rwa [h.get_none hget]
      | some task =>
          obtain ⟨task', hget', hshown⟩ := h.get_some hget
          rw [hget']
          exact h.settle (shown_givenUp hshown error completedAt)
  | cancel id =>
      rw [TaskQueue.applyRecord, TaskQueue.applyRecord]
      cases hget : q.tasks.get id with
      | none => rwa [h.get_none hget]
      | some task =>
          obtain ⟨task', hget', hshown⟩ := h.get_some hget
          rw [hget']
          exact h.settle (shown_dropped hshown)

/-- What a log shows does not depend on when it is read. -/
theorem replay_matches (clock clock' : Nat → Moment) (wal : List WalRecord) :
    (replay clock wal).Matches (replay clock' wal) := by
  induction wal using List.reverseRecOn with
  | nil => exact ⟨rfl, rfl, rfl, rfl⟩
  | append_singleton wal r ih =>
      rw [replay_append_singleton, replay_append_singleton]
      exact ih.applyRecord _ _ r

theorem init_same (clock clock' : Nat → Moment) (wal : List WalRecord) :
    (init clock' wal).Same clock := by
  obtain ⟨htasks, hqueued, hactive, hcompleted⟩ := replay_matches clock' clock wal
  exact ⟨htasks, hqueued, hactive, hcompleted⟩

theorem init_covered {wal : List WalRecord} (h : Stamped wal) (clock clock' : Nat → Moment) :
    (init clock' wal).Covered clock := by
  refine ⟨[], ?_⟩
  rw [List.nil_append]
  exact .of_eq (congrArg LazyHeap.entries (replay_heap_eq h clock clock'))

/-- The tasks and ids are brought back along a run just if every step is
kept. -/
theorem same_iff (clock clock' : Nat → Moment) (wal : List WalRecord) (ops : List Op) :
    Always step (Same clock) (init clock' wal) ops ↔ Steps step Kept (init clock' wal) ops :=
  along_iff_steps (fun _ => True) (fun _ _ _ => trivial) (fun q op _ hq => by rw [hq.step_iff op, and_true])
    trivial (init_same clock clock' wal) ops

/-- A task that is given out, assigned and completed. -/
def delivery : List Op :=
  [.enqueue { taskId := "a" } "" default, .dequeue "", .acknowledge "a" "n" default,
    .complete "a" [] default]

end TaskQueue

end Prodinamik.Grid
