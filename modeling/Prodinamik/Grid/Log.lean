import Prodinamik.Grid.TaskQueue

namespace Prodinamik.Grid

open Lib

namespace WalRecord

def taskId : WalRecord → String
  | .enqueue data => data.taskId
  | .acknowledge id _ => id
  | .complete id _ _ => id
  | .fail id _ _ => id
  | .cancel id => id

/-- The status a record gives to its task; one that is not an enqueue needs
the task to be there. -/
def status (before : Option TaskStatus) : WalRecord → Option TaskStatus
  | .enqueue _ => some .queued
  | .acknowledge _ _ => before.map fun _ => .assigned
  | .complete _ _ _ => before.map fun _ => .completed
  | .fail _ _ _ => before.map fun _ => .failed
  | .cancel _ => before.map fun _ => .cancelled

end WalRecord

namespace TaskQueue

theorem statusOf_put {q q' : TaskQueue} {u : Task} (h : q'.tasks = q.tasks.put u)
    (id : String) :
    q'.statusOf id = if id = u.taskId then some u.status else q.statusOf id := by
  rw [statusOf, statusOf, getTask, getTask, h, Table.get_put]
  split <;> rfl

theorem statusOf_of_get {q : TaskQueue} {id : String} {task : Task}
    (h : q.tasks.get id = some task) : q.statusOf id = some task.status := by
  rw [statusOf, getTask, h, Option.map_some]

theorem replay_append_singleton (clock : Nat → Moment) (wal : List WalRecord) (r : WalRecord) :
    replay clock (wal ++ [r]) = (replay clock wal).applyRecord (clock wal.length) r := by
  rw [replay, List.zipIdx_append, List.foldl_append, List.zipIdx_singleton, Nat.zero_add]
  rfl

/-- The entry a line of the log pushes when it is read at a moment. -/
def pushedBy (now : Moment) : WalRecord → Option PrioritizedTask
  | .enqueue data => some ⟨data.priority, data.timestamp.getD now.time, data.taskId⟩
  | _ => none

theorem applyRecord_heap (now : Moment) (q : TaskQueue) (r : WalRecord) :
    (q.applyRecord now r).heap = ((pushedBy now r).elim q.heap q.heap.push) := by
  cases r with
  | enqueue data => rfl
  | acknowledge id nodeId =>
      rw [applyRecord]
      cases q.tasks.get id <;> rfl
  | complete id result completedAt =>
      rw [applyRecord]
      cases q.tasks.get id <;> rfl
  | fail id error completedAt =>
      rw [applyRecord]
      cases q.tasks.get id <;> rfl
  | cancel id =>
      rw [applyRecord]
      cases q.tasks.get id <;> rfl

def enqueues (id : String) : WalRecord → Bool
  | .enqueue data => data.taskId = id
  | _ => false

/-- Replay pushes one entry for every enqueue record. -/
theorem countP_replay_heap (clock : Nat → Moment) (id : String) (wal : List WalRecord) :
    (replay clock wal).heap.entries.countP (fun e => e.taskId = id) =
      wal.countP (enqueues id) := by
  induction wal using List.reverseRecOn with
  | nil => rfl
  | append_singleton wal r ih =>
      rw [replay_append_singleton, applyRecord_heap, List.countP_append, ← ih]
      cases r with
      | enqueue data => simp [pushedBy, LazyHeap.countP_push, enqueues, List.countP_cons]
      | acknowledge id nodeId => simp [pushedBy, enqueues]
      | complete id result completedAt => simp [pushedBy, enqueues]
      | fail id error completedAt => simp [pushedBy, enqueues]
      | cancel id => simp [pushedBy, enqueues]

/-- What an operation on a task that has to be there does to the statuses. -/
theorem statusOf_of_change {q q' : TaskQueue} (id' : String) {s : TaskStatus}
    (hnone : q.tasks.get id' = none → q' = q)
    (hsome : ∀ task, q.tasks.get id' = some task →
      ∃ u : Task, u.taskId = id' ∧ u.status = s ∧ q'.tasks = q.tasks.put u) (id : String) :
    q'.statusOf id = if id = id' then (q.statusOf id).map fun _ => s else q.statusOf id := by
  cases hget : q.tasks.get id' with
  | none =>
      rw [hnone hget]
      split
      case isTrue h => rw [h, statusOf, getTask, hget]; rfl
      case isFalse => rfl
  | some task =>
      obtain ⟨u, rfl, rfl, htasks⟩ := hsome task hget
      rw [statusOf_put htasks]
      split
      case isTrue h => rw [h, statusOf_of_get hget, Option.map_some]
      case isFalse => rfl

theorem statusOf_applyRecord (now : Moment) (q : TaskQueue) (r : WalRecord) (id : String) :
    (q.applyRecord now r).statusOf id =
      if id = r.taskId then r.status (q.statusOf id) else q.statusOf id := by
  cases r with
  | enqueue data => exact statusOf_put (u := taskOfData data now) rfl id
  | acknowledge id' nodeId =>
      refine statusOf_of_change id' (fun h => ?_) (fun task h => ?_) id
      · rw [applyRecord, h]
      · have hkey := Table.key_of_get h
        rw [applyRecord, h]
        exact ⟨{ task with status := .assigned, assignedNode := nodeId }, hkey, rfl, rfl⟩
  | complete id' result completedAt =>
      refine statusOf_of_change id' (fun h => ?_) (fun task h => ?_) id
      · rw [applyRecord, h]
      · have hkey := Table.key_of_get h
        rw [applyRecord, h]
        exact ⟨finished task result completedAt, hkey, rfl, rfl⟩
  | fail id' error completedAt =>
      refine statusOf_of_change id' (fun h => ?_) (fun task h => ?_) id
      · rw [applyRecord, h]
      · have hkey := Table.key_of_get h
        rw [applyRecord, h]
        exact ⟨givenUp task error completedAt, hkey, rfl, rfl⟩
  | cancel id' =>
      refine statusOf_of_change id' (fun h => ?_) (fun task h => ?_) id
      · rw [applyRecord, h]
      · have hkey := Table.key_of_get h
        rw [applyRecord, h]
        exact ⟨dropped task, hkey, rfl, rfl⟩

/-- The status the log leaves a task with. -/
def walStatus (wal : List WalRecord) (id : String) : Option TaskStatus :=
  wal.foldl (fun status r => if id = r.taskId then r.status status else status) none

theorem walStatus_concat (wal : List WalRecord) (r : WalRecord) (id : String) :
    walStatus (wal ++ [r]) id =
      if id = r.taskId then r.status (walStatus wal id) else walStatus wal id := by
  rw [walStatus, List.foldl_append]
  rfl

theorem statusOf_replay (clock : Nat → Moment) (wal : List WalRecord) (id : String) :
    (replay clock wal).statusOf id = walStatus wal id := by
  induction wal using List.reverseRecOn with
  | nil => rfl
  | append_singleton wal r ih =>
      rw [replay_append_singleton, statusOf_applyRecord, ih, walStatus_concat]

/-- The statuses of a queue are the ones its log tells. -/
def Logged (q : TaskQueue) : Prop := ∀ id, q.statusOf id = walStatus q.wal id

theorem init_logged (clock : Nat → Moment) (wal : List WalRecord) : (init clock wal).Logged :=
  fun id => statusOf_replay clock wal id

theorem Logged.append {q q' : TaskQueue} (h : q.Logged) {r : WalRecord}
    (hwal : q'.wal = q.wal ++ [r])
    (hstatus : ∀ id, q'.statusOf id =
      if id = r.taskId then r.status (q.statusOf id) else q.statusOf id) : q'.Logged := by
  intro id
  rw [hstatus, hwal, walStatus_concat, h id]

theorem Logged.put {q q' : TaskQueue} (h : q.Logged) {task u : Task} {r : WalRecord}
    (hwal : q'.wal = q.wal ++ [r]) (hget : q.tasks.get r.taskId = some task)
    (hid : u.taskId = r.taskId) (htasks : q'.tasks = q.tasks.put u)
    (hstatus : r.status (some task.status) = some u.status) : q'.Logged := by
  refine h.append hwal fun id => ?_
  rw [statusOf_put htasks, hid]
  split
  case isTrue he => rw [he, statusOf_of_get hget, hstatus]
  case isFalse => rfl

theorem Logged.step {q : TaskQueue} (h : q.Logged) (op : Op) : (q.step op).Logged := by
  cases op with
  | enqueue task uuid now =>
      exact h.append rfl fun id => statusOf_put (u := enqueued task uuid now) rfl id
  | dequeue affinity => exact h
  | acknowledge id nodeId now =>
      cases hget : q.tasks.get id with
      | none => rwa [(step_of_unknown hget).1]
      | some task =>
          obtain rfl := Table.key_of_get hget
          rw [(step_of_known hget).1]
          exact h.put rfl hget (u := assignedTo task nodeId now) rfl rfl rfl
  | complete id result now =>
      cases hget : q.tasks.get id with
      | none => rwa [(step_of_unknown hget).2.1]
      | some task =>
          obtain rfl := Table.key_of_get hget
          rw [(step_of_known hget).2.1]
          exact h.put rfl hget (u := finished task result now.isoformat) rfl rfl rfl
  | fail id error retry now later =>
      cases hget : q.tasks.get id with
      | none => rwa [(step_of_unknown hget).2.2.1]
      | some task =>
          obtain rfl := Table.key_of_get hget
          rw [(step_of_known hget).2.2.1]
          split
          · exact h.put rfl hget (u := retried task) rfl rfl rfl
          · exact h.put rfl hget (u := givenUp task error now.isoformat) rfl rfl rfl
  | cancel id =>
      cases hget : q.tasks.get id with
      | none => rwa [(step_of_unknown hget).2.2.2]
      | some task =>
          obtain rfl := Table.key_of_get hget
          rw [(step_of_known hget).2.2.2]
          exact h.put rfl hget (u := dropped task) rfl rfl rfl

/-! A task is there if the log has an enqueue record of it. -/

theorem isSome_walStatus (wal : List WalRecord) (id : String) :
    (walStatus wal id).isSome = true ↔ 0 < wal.countP (enqueues id) := by
  induction wal using List.reverseRecOn with
  | nil => simp [walStatus]
  | append_singleton wal r ih =>
      rw [walStatus_concat, List.countP_append, List.countP_singleton]
      have hkeep : (∀ before, (r.status before).isSome = before.isSome) → enqueues id r = false →
          ((if id = r.taskId then r.status (walStatus wal id) else walStatus wal id).isSome = true ↔
            0 < wal.countP (enqueues id) + if enqueues id r = true then 1 else 0) := by
        intro hsome henqueues
        rw [henqueues, if_neg Bool.false_ne_true, Nat.add_zero, ← ih]
        split
        · rw [hsome]
        · rfl
      cases r with
      | enqueue data =>
          by_cases h : id = data.taskId
          · simp [WalRecord.taskId, WalRecord.status, enqueues, h]
          · rw [if_neg (show id ≠ (WalRecord.enqueue data).taskId from h), ih, enqueues,
              if_neg (by simpa using Ne.symm h), Nat.add_zero]
      | acknowledge id' nodeId => exact hkeep (fun before => Option.isSome_map) rfl
      | complete id' result completedAt => exact hkeep (fun before => Option.isSome_map) rfl
      | fail id' error completedAt => exact hkeep (fun before => Option.isSome_map) rfl
      | cancel id' => exact hkeep (fun before => Option.isSome_map) rfl

theorem walStatus_of_enqueues {wal : List WalRecord}
    (h : ∀ r ∈ wal, ∃ data, r = .enqueue data) (id : String) :
    walStatus wal id = if 0 < wal.countP (enqueues id) then some .queued else none := by
  induction wal using List.reverseRecOn with
  | nil => rfl
  | append_singleton wal r ih =>
      obtain ⟨data, rfl⟩ := h r (by simp)
      have hwal := ih fun r hr => h r (List.mem_append_left _ hr)
      have hlast : walStatus (wal ++ [.enqueue data]) id =
          if id = data.taskId then some .queued else walStatus wal id := walStatus_concat wal _ id
      rw [hlast, hwal, List.countP_append, List.countP_singleton]
      by_cases hid : id = data.taskId
      · simp [enqueues, hid]
      · simp [enqueues, hid, Ne.symm hid]

theorem countP_compactWal (q : TaskQueue) (id : String) :
    q.compactWal.countP (enqueues id) = if (q.statusOf id).any (TaskStatus.Open ·) then 1 else 0 := by
  have hrows := q.tasks.countP_rows (fun t => t.status.Open) id
  rw [compactWal, List.countP_map, List.countP_filter, statusOf, getTask, Option.any_map]
  refine Eq.trans (List.countP_congr fun t _ => ?_) hrows
  simp [enqueues, compactData]

theorem walStatus_compactWal (q : TaskQueue) (id : String) :
    walStatus q.compactWal id =
      if (q.statusOf id).any (TaskStatus.Open ·) then some .queued else none := by
  rw [walStatus_of_enqueues, countP_compactWal]
  · split
    · rfl
    · rfl
  · intro r hr
    obtain ⟨t, -, rfl⟩ := List.mem_map.mp hr
    exact ⟨_, rfl⟩

/-- The log has no task without an id. -/
def Named (q : TaskQueue) : Prop := q.wal.countP (enqueues "") = 0

theorem Logged.isSome_statusOf {q : TaskQueue} (h : q.Logged) (id : String) :
    (q.statusOf id).isSome = true ↔ 0 < q.wal.countP (enqueues id) := by
  rw [h id, isSome_walStatus]

theorem Named.ne {q : TaskQueue} (h : q.Logged) (hn : q.Named) {id : String} {task : Task}
    (hget : q.tasks.get id = some task) : task.taskId ≠ "" := by
  intro he
  have hsome := (h.isSome_statusOf "").mp (by
    rw [← he, Table.key_of_get hget, statusOf_of_get hget]
    rfl)
  rw [hn] at hsome
  exact absurd hsome (lt_irrefl 0)

theorem enqueued_taskId_ne (task : Task) (uuid : String) (now : Moment) :
    (enqueued task uuid now).taskId ≠ "" := by
  rw [enqueued]
  simp only
  split
  case isTrue h =>
    intro he
    have := congrArg String.length he
    rw [String.length_append] at this
    have htask : "task-".length = 5 := by decide
    have hnil : "".length = 0 := rfl
    omega
  case isFalse h => exact h

theorem Named.append {q q' : TaskQueue} (hn : q.Named) {r : WalRecord}
    (hwal : q'.wal = q.wal ++ [r]) (hr : enqueues "" r = false) : q'.Named := by
  rw [Named, hwal, List.countP_append, hn, List.countP_singleton, hr]
  rfl

theorem Named.step {q : TaskQueue} (h : q.Logged) (hn : q.Named) (op : Op) : (q.step op).Named := by
  cases op with
  | enqueue task uuid now =>
      refine hn.append rfl (decide_eq_false ?_)
      exact enqueued_taskId_ne task uuid now
  | dequeue affinity => exact hn
  | acknowledge id nodeId now =>
      cases hget : q.tasks.get id with
      | none => rwa [(step_of_unknown hget).1]
      | some task =>
          rw [(step_of_known hget).1]
          exact hn.append rfl rfl
  | complete id result now =>
      cases hget : q.tasks.get id with
      | none => rwa [(step_of_unknown hget).2.1]
      | some task =>
          rw [(step_of_known hget).2.1]
          exact hn.append rfl rfl
  | fail id error retry now later =>
      cases hget : q.tasks.get id with
      | none => rwa [(step_of_unknown hget).2.2.1]
      | some task =>
          rw [(step_of_known hget).2.2.1]
          split
          · exact hn.append rfl (decide_eq_false (hn.ne h hget))
          · exact hn.append rfl rfl
  | cancel id =>
      cases hget : q.tasks.get id with
      | none => rwa [(step_of_unknown hget).2.2.2]
      | some task =>
          rw [(step_of_known hget).2.2.2]
          exact hn.append rfl rfl

/-- What a queue keeps whatever is done to it. -/
def Sound (q : TaskQueue) : Prop := q.Logged ∧ q.Named

theorem Sound.step {q : TaskQueue} (h : q.Sound) (op : Op) : (q.step op).Sound :=
  ⟨h.1.step op, h.2.step h.1 op⟩

theorem Sound.foldl {q : TaskQueue} (h : q.Sound) (ops : List Op) :
    (ops.foldl TaskQueue.step q).Sound := by
  induction ops generalizing q with
  | nil => exact h
  | cons op ops ih => exact ih (h.step op)

theorem Sound.named_compactWal {q : TaskQueue} (h : q.Sound) :
    q.compactWal.countP (enqueues "") = 0 := by
  have hnone : q.statusOf "" = none := by
    cases hstatus : q.statusOf "" with
    | none => rfl
    | some s =>
        have := (h.1.isSome_statusOf "").mp (by rw [hstatus]; rfl)
        rw [h.2] at this
        exact absurd this (lt_irrefl 0)
  rw [countP_compactWal, hnone]
  rfl

/-- One queue comes from another by operations of the queue. -/
def Reaches (q q' : TaskQueue) : Prop := ∃ ops : List Op, q' = ops.foldl step q

theorem Reaches.refl (q : TaskQueue) : q.Reaches q := ⟨[], rfl⟩

theorem Reaches.step {q q' : TaskQueue} (op : Op) (h : (q.step op).Reaches q') : q.Reaches q' := by
  obtain ⟨ops, rfl⟩ := h
  exact ⟨op :: ops, rfl⟩

theorem Logged.reaches {q q' : TaskQueue} (h : q.Logged) (hreaches : q.Reaches q') :
    q'.Logged := by
  obtain ⟨ops, rfl⟩ := hreaches
  induction ops generalizing q with
  | nil => exact h
  | cons op ops ih => exact ih (h.step op)

theorem Sound.reaches {q q' : TaskQueue} (h : q.Sound) (hreaches : q.Reaches q') : q'.Sound := by
  obtain ⟨ops, rfl⟩ := hreaches
  exact h.foldl ops

end TaskQueue

end Prodinamik.Grid
