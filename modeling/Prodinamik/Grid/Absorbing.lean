import Prodinamik.Grid.Log
import Prodinamik.Lib.Run

namespace Prodinamik.Grid

open Lib Lib.Run

namespace TaskQueue

/-- What the three sets say of one id is what its task's status says. -/
def AgreesAt (q : TaskQueue) (id : String) : Prop :=
  (id ∈ q.queuedIds ↔ q.statusOf id = some .queued) ∧
    (id ∈ q.activeIds ↔ q.statusOf id = some .assigned ∨ q.statusOf id = some .running) ∧
    (id ∈ q.completedIds ↔ ∃ s ∈ q.statusOf id, s.Terminal)

def Agrees (q : TaskQueue) : Prop := ∀ id, q.AgreesAt id

structure Partitioned (q : TaskQueue) : Prop where
  queued_active : Disjoint q.queuedIds q.activeIds
  queued_completed : Disjoint q.queuedIds q.completedIds
  active_completed : Disjoint q.activeIds q.completedIds
  agrees : q.Agrees

/-- A terminal status survives the operation. -/
def Absorbs (q : TaskQueue) (op : Op) : Prop :=
  ∀ id, ∀ s ∈ q.statusOf id, s.Terminal → (q.step op).statusOf id = some s

theorem Agrees.partitioned {q : TaskQueue} (h : q.Agrees) : q.Partitioned := by
  refine ⟨?_, ?_, ?_, h⟩
  · refine Finset.disjoint_left.mpr fun id hq ha => ?_
    have hs := (h id).1.mp hq
    rcases (h id).2.1.mp ha with h' | h' <;> rw [hs] at h' <;> cases h'
  · refine Finset.disjoint_left.mpr fun id hq hc => ?_
    obtain ⟨s, hs, ht⟩ := (h id).2.2.mp hc
    rw [(h id).1.mp hq] at hs
    cases hs
    revert ht
    decide
  · refine Finset.disjoint_left.mpr fun id ha hc => ?_
    obtain ⟨s, hs, ht⟩ := (h id).2.2.mp hc
    rcases (h id).2.1.mp ha with h' | h' <;> rw [h'] at hs <;> cases hs <;> revert ht <;> decide

theorem partitioned_iff {q : TaskQueue} : q.Partitioned ↔ q.Agrees :=
  ⟨Partitioned.agrees, Agrees.partitioned⟩

/-- An operation that touches one id has to be looked at there only. -/
theorem Agrees.put_iff {q q' : TaskQueue} (h : q.Agrees) {task : Task}
    (htasks : q'.tasks = q.tasks.put task)
    (hqueued : ∀ id, id ≠ task.taskId → (id ∈ q'.queuedIds ↔ id ∈ q.queuedIds))
    (hactive : ∀ id, id ≠ task.taskId → (id ∈ q'.activeIds ↔ id ∈ q.activeIds))
    (hcompleted : ∀ id, id ≠ task.taskId → (id ∈ q'.completedIds ↔ id ∈ q.completedIds)) :
    q'.Agrees ↔ q'.AgreesAt task.taskId := by
  refine ⟨fun h' => h' _, fun h' id => ?_⟩
  by_cases hid : id = task.taskId
  · rwa [hid]
  · rw [AgreesAt, hqueued id hid, hactive id hid, hcompleted id hid, statusOf_put htasks,
      if_neg hid]
    exact h id

theorem absorbs_put_iff {q : TaskQueue} {op : Op} {task : Task}
    (htasks : (q.step op).tasks = q.tasks.put task) :
    q.Absorbs op ↔ ∀ s ∈ q.statusOf task.taskId, s.Terminal → task.status = s := by
  constructor
  · intro h s hs ht
    have := h _ s hs ht
    rwa [statusOf_put htasks, if_pos rfl, Option.some.injEq] at this
  · intro h id s hs ht
    rw [statusOf_put htasks]
    split
    case isTrue hid => rw [h s (hid ▸ hs) ht]
    case isFalse => exact hs

/-- What a caller has to see to before an operation. -/
def Legal (q : TaskQueue) : Op → Prop
  | .enqueue task uuid now => ∀ s ∈ q.statusOf (enqueued task uuid now).taskId, s = .queued
  | .dequeue _ => True
  | .acknowledge id _ _ => ∀ s ∈ q.statusOf id, ¬ s.Terminal
  | .complete id _ _ => ∀ s ∈ q.statusOf id, s = .assigned ∨ s = .running ∨ s = .completed
  | .fail id _ retry _ _ =>
      ∀ task ∈ q.getTask id,
        if retry ∧ (task.retryCount : Int) < task.maxRetries then ¬ task.status.Terminal
        else task.status = .assigned ∨ task.status = .running ∨ task.status = .failed
  | .cancel id => ∀ s ∈ q.statusOf id, s.Terminal → s = .cancelled

theorem absorbs_of_step_eq {q : TaskQueue} {op : Op} (h : (q.step op).tasks = q.tasks) :
    q.Absorbs op := by
  intro id s hs _
  rwa [statusOf, getTask, h]

theorem Agrees.enqueue_iff {q : TaskQueue} (h : q.Agrees) (task : Task) (uuid : String)
    (now : Moment) :
    ((q.step (.enqueue task uuid now)).Agrees ∧ q.Absorbs (.enqueue task uuid now)) ↔
      q.Legal (.enqueue task uuid now) := by
  have htasks : (q.step (.enqueue task uuid now)).tasks =
      q.tasks.put (enqueued task uuid now) := rfl
  rw [h.put_iff htasks (fun id hid => by simp [step, enqueue, hid]) (fun id _ => Iff.rfl)
    (fun id _ => Iff.rfl), absorbs_put_iff htasks, AgreesAt, statusOf_put htasks, if_pos rfl]
  have hat := h (enqueued task uuid now).taskId
  rw [AgreesAt] at hat
  have hqueued : (q.step (.enqueue task uuid now)).queuedIds =
    insert (enqueued task uuid now).taskId q.queuedIds := rfl
  have hactive : (q.step (.enqueue task uuid now)).activeIds = q.activeIds := rfl
  have hcompleted : (q.step (.enqueue task uuid now)).completedIds = q.completedIds := rfl
  have hstatus : (enqueued task uuid now).status = .queued := rfl
  rw [hqueued, hactive, hcompleted, hat.2.1, hat.2.2, hstatus, Legal]
  generalize q.statusOf (enqueued task uuid now).taskId = status
  cases status with
  | none => simp [TaskStatus.Terminal]
  | some s => cases s <;> simp [TaskStatus.Terminal]

theorem Agrees.unknown_iff {q : TaskQueue} (h : q.Agrees) {op : Op} (hstep : q.step op = q)
    (hlegal : q.Legal op) : ((q.step op).Agrees ∧ q.Absorbs op) ↔ q.Legal op := by
  refine iff_of_true ⟨?_, absorbs_of_step_eq (congrArg tasks hstep)⟩ hlegal
  rwa [hstep]

theorem AgreesAt.of_get {q : TaskQueue} {id : String} (h : q.AgreesAt id) {task : Task}
    (hget : q.tasks.get id = some task) :
    (id ∈ q.queuedIds ↔ task.status = .queued) ∧
      (id ∈ q.activeIds ↔ task.status = .assigned ∨ task.status = .running) ∧
      (id ∈ q.completedIds ↔ task.status.Terminal) := by
  rw [AgreesAt, statusOf_of_get hget] at h
  simpa using h

/-- What an operation on a task that is there has to get right. -/
theorem Agrees.update_iff {q : TaskQueue} (h : q.Agrees) {op : Op} {task u : Task}
    (hget : q.tasks.get u.taskId = some task)
    (htasks : (q.step op).tasks = q.tasks.put u)
    (hqueued : ∀ id, id ≠ u.taskId → (id ∈ (q.step op).queuedIds ↔ id ∈ q.queuedIds))
    (hactive : ∀ id, id ≠ u.taskId → (id ∈ (q.step op).activeIds ↔ id ∈ q.activeIds))
    (hcompleted : ∀ id, id ≠ u.taskId →
      (id ∈ (q.step op).completedIds ↔ id ∈ q.completedIds)) :
    ((q.step op).Agrees ∧ q.Absorbs op) ↔
      ((u.taskId ∈ (q.step op).queuedIds ↔ u.status = .queued) ∧
        (u.taskId ∈ (q.step op).activeIds ↔ u.status = .assigned ∨ u.status = .running) ∧
        (u.taskId ∈ (q.step op).completedIds ↔ u.status.Terminal)) ∧
      (task.status.Terminal → u.status = task.status) := by
  rw [h.put_iff htasks hqueued hactive hcompleted, absorbs_put_iff htasks, AgreesAt,
    statusOf_put htasks, if_pos rfl, statusOf_of_get hget]
  simp

theorem Agrees.acknowledge_iff {q : TaskQueue} (h : q.Agrees) (id nodeId : String)
    (now : Moment) :
    ((q.step (.acknowledge id nodeId now)).Agrees ∧ q.Absorbs (.acknowledge id nodeId now)) ↔
      q.Legal (.acknowledge id nodeId now) := by
  cases hget : q.tasks.get id with
  | none => exact h.unknown_iff ((step_of_unknown hget).1 nodeId now) (by simp [Legal, statusOf, getTask, hget])
  | some task =>
      obtain rfl := Table.key_of_get hget
      have hstep := (step_of_known hget).1 nodeId now
      rw [h.update_iff (u := assignedTo task nodeId now) hget
        (by rw [hstep]; rfl)
        (fun id hid => by simp [hstep, assign, show id ≠ task.taskId from hid])
        (fun id hid => by simp [hstep, assign, show id ≠ task.taskId from hid])
        (fun id hid => by simp [hstep, assign])]
      simp only [hstep, assign, assignedTo, Finset.mem_erase, Finset.mem_insert,
        (h task.taskId).of_get hget, Legal, statusOf_of_get hget]
      cases task.status <;> simp [TaskStatus.Terminal]

theorem Agrees.complete_iff {q : TaskQueue} (h : q.Agrees) (id : String)
    (result : List (String × String)) (now : Moment) :
    ((q.step (.complete id result now)).Agrees ∧ q.Absorbs (.complete id result now)) ↔
      q.Legal (.complete id result now) := by
  cases hget : q.tasks.get id with
  | none => exact h.unknown_iff ((step_of_unknown hget).2.1 result now) (by simp [Legal, statusOf, getTask, hget])
  | some task =>
      obtain rfl := Table.key_of_get hget
      have hstep := (step_of_known hget).2.1 result now
      rw [h.update_iff (u := finished task result now.isoformat) hget
        (by rw [hstep]; rfl)
        (fun id hid => by simp [hstep, finish])
        (fun id hid => by simp [hstep, finish, show id ≠ task.taskId from hid])
        (fun id hid => by simp [hstep, finish, show id ≠ task.taskId from hid])]
      simp only [hstep, finish, finished, Finset.mem_erase, Finset.mem_insert,
        (h task.taskId).of_get hget, Legal, statusOf_of_get hget]
      cases task.status <;> simp [TaskStatus.Terminal]

theorem Agrees.cancel_iff {q : TaskQueue} (h : q.Agrees) (id : String) :
    ((q.step (.cancel id)).Agrees ∧ q.Absorbs (.cancel id)) ↔ q.Legal (.cancel id) := by
  cases hget : q.tasks.get id with
  | none => exact h.unknown_iff (step_of_unknown hget).2.2.2 (by simp [Legal, statusOf, getTask, hget])
  | some task =>
      obtain rfl := Table.key_of_get hget
      have hstep := (step_of_known hget).2.2.2
      rw [h.update_iff (u := dropped task) hget
        (by rw [hstep]; rfl)
        (fun id hid => by simp [hstep, drop, show id ≠ task.taskId from hid])
        (fun id hid => by simp [hstep, drop, show id ≠ task.taskId from hid])
        (fun id hid => by simp [hstep, drop, show id ≠ task.taskId from hid])]
      simp only [hstep, drop, dropped, Finset.mem_erase, Finset.mem_insert,
        (h task.taskId).of_get hget, Legal, statusOf_of_get hget]
      cases task.status <;> simp [TaskStatus.Terminal]

theorem Agrees.fail_iff {q : TaskQueue} (h : q.Agrees) (id error : String) (retry : Bool)
    (now : Moment) (later : Int) :
    ((q.step (.fail id error retry now later)).Agrees ∧
        q.Absorbs (.fail id error retry now later)) ↔
      q.Legal (.fail id error retry now later) := by
  cases hget : q.tasks.get id with
  | none =>
      exact h.unknown_iff ((step_of_unknown hget).2.2.1 error retry now later)
        (by simp [Legal, getTask, hget])
  | some task =>
      obtain rfl := Table.key_of_get hget
      have hstep := (step_of_known hget).2.2.1 error retry now later
      by_cases hretry : retry ∧ (task.retryCount : Int) < task.maxRetries
      · rw [if_pos hretry] at hstep
        rw [h.update_iff (u := retried task) hget
          (by rw [hstep]; rfl)
          (fun id hid => by simp [hstep, requeue, show id ≠ task.taskId from hid])
          (fun id hid => by simp [hstep, requeue, show id ≠ task.taskId from hid])
          (fun id hid => by simp [hstep, requeue])]
        simp only [hstep, requeue, retried, Finset.mem_erase, Finset.mem_insert,
          (h task.taskId).of_get hget, Legal, getTask, hget, Option.mem_some_iff, forall_eq',
          if_pos hretry]
        cases task.status <;> simp [TaskStatus.Terminal]
      · rw [if_neg hretry] at hstep
        rw [h.update_iff (u := givenUp task error now.isoformat) hget
          (by rw [hstep]; rfl)
          (fun id hid => by simp [hstep, giveUp])
          (fun id hid => by simp [hstep, giveUp, show id ≠ task.taskId from hid])
          (fun id hid => by simp [hstep, giveUp, show id ≠ task.taskId from hid])]
        simp only [hstep, giveUp, givenUp, Finset.mem_erase, Finset.mem_insert,
          (h task.taskId).of_get hget, Legal, getTask, hget, Option.mem_some_iff, forall_eq',
          if_neg hretry]
        cases task.status <;> simp [TaskStatus.Terminal]

theorem Agrees.step_iff {q : TaskQueue} (h : q.Agrees) (op : Op) :
    ((q.step op).Agrees ∧ q.Absorbs op) ↔ q.Legal op := by
  cases op with
  | enqueue task uuid now => exact h.enqueue_iff task uuid now
  | dequeue affinity => exact ⟨fun _ => trivial, fun _ => ⟨h, absorbs_of_step_eq rfl⟩⟩
  | acknowledge id nodeId now => exact h.acknowledge_iff id nodeId now
  | complete id result now => exact h.complete_iff id result now
  | fail id error retry now later => exact h.fail_iff id error retry now later
  | cancel id => exact h.cancel_iff id

theorem agrees_empty : empty.Agrees := by
  intro id
  simp [AgreesAt, statusOf, getTask, empty]

theorem Agrees.along_iff {q : TaskQueue} (h : q.Agrees) (ops : List Op) :
    Along step Partitioned Absorbs q ops ↔ Steps step Legal q ops := by
  refine along_iff_steps (fun _ => True) (fun _ _ _ => trivial) (fun q op _ hq => ?_)
    trivial h.partitioned ops
  rw [partitioned_iff]
  exact hq.agrees.step_iff op

/-- The sets partition the tasks and terminal statuses last, as long as the
operations come in an order their callers had better keep. -/
theorem terminal_absorbing_iff (ops : List Op) :
    Along step Partitioned Absorbs empty ops ↔ Steps step Legal empty ops :=
  agrees_empty.along_iff ops

/-- A task that is cancelled, then reported as failed, runs again. -/
theorem not_terminal_absorbing :
    ¬ ∀ ops : List Op, Along step Partitioned Absorbs empty ops := by
  intro h
  have hlegal := (agrees_empty.along_iff _).mp
    (h [.enqueue { taskId := "a" } "" default, .cancel "a", .fail "a" "" true default 0])
  have hfail := hlegal.2.2.2.2.2.1 _ rfl
  exact absurd hfail (by decide +kernel)

/-- enqueue_batch is a run of enqueues. -/
theorem enqueueBatch_eq_foldl (tasks : List (Task × String × Moment)) (q : TaskQueue) :
    q.enqueueBatch tasks = (tasks.map fun t => Op.enqueue t.1 t.2.1 t.2.2).foldl step q := by
  induction tasks generalizing q with
  | nil => rfl
  | cons t ts ih => exact ih _

/-- cancel_all is a run of cancels, none of them of a task that has ended. -/
theorem cancelAll_eq_foldl (q : TaskQueue) (statusFilter : Option TaskStatus) :
    ∃ ops, q.cancelAll statusFilter = ops.foldl step q ∧ Steps step Legal q ops := by
  have hloop : ∀ (ts : List Task) (q : TaskQueue),
      ∃ ops, cancelAllFrom statusFilter ts q = ops.foldl step q ∧ Steps step Legal q ops := by
    intro ts
    induction ts with
    | nil => exact fun q => ⟨[], rfl, trivial⟩
    | cons t ts ih =>
        intro q
        rw [cancelAllFrom]
        cases hget : q.tasks.get t.taskId with
        | none => exact ih q
        | some task =>
            obtain hkey := Table.key_of_get hget
            simp only
            split
            · exact ih q
            · rename_i hskip
              obtain ⟨ops, hops, hlegal⟩ := ih ((q.cancel task.taskId).getD q)
              refine ⟨.cancel task.taskId :: ops, hops, trivial, ?_, hlegal⟩
              intro s hs hterminal
              rw [hkey, statusOf_of_get hget, Option.mem_some_iff] at hs
              exact absurd (.inr (hs ▸ hterminal)) hskip
  exact hloop q.tasks.rows q

end TaskQueue

end Prodinamik.Grid
