import Prodinamik.Grid.Dequeue

namespace Prodinamik.Grid

open Lib

namespace TaskQueue

/-- The task may go to a caller that asks for the affinity. -/
def Suits (affinity : String) (task : Task) : Prop :=
  affinity = "" ∨ task.affinity = "" ∨ task.affinity = affinity

/-- The entries of QUEUED tasks that a dequeue for the affinity may take. -/
def Eligible (q : TaskQueue) (affinity : String) : Set PrioritizedTask :=
  {e | e ∈ q.heap.entries ∧
    ∃ task, q.getTask e.taskId = some task ∧ task.status = .queued ∧ Suits affinity task}

theorem fits_eq_true_iff {q : TaskQueue} {affinity : String} {e : PrioritizedTask} {task : Task}
    (hget : q.getTask e.taskId = some task) :
    q.fits affinity e = true ↔ Suits affinity task := by
  rw [getTask] at hget
  rw [fits, hget]
  exact decide_eq_true_iff

theorem eligible_eq (q : TaskQueue) (affinity : String) :
    {e | e ∈ q.heap.entries ∧ q.stale e = false ∧ q.fits affinity e = true} =
      q.Eligible affinity := by
  ext e
  refine and_congr_right fun _ => ?_
  rw [stale_eq_false_iff, statusOf, Option.map_eq_some_iff]
  constructor
  · rintro ⟨⟨task, hget, hstatus⟩, hfits⟩
    exact ⟨task, hget, hstatus, (fits_eq_true_iff hget).mp hfits⟩
  · rintro ⟨task, hget, hstatus, hsuits⟩
    exact ⟨⟨task, hget, hstatus⟩, (fits_eq_true_iff hget).mpr hsuits⟩

theorem pulled_iff (q : TaskQueue) (affinity : String) (e : PrioritizedTask) :
    (q.heap.pull q.stale (q.fits affinity)).1 = some e ↔ IsLeast (q.Eligible affinity) e := by
  rw [LazyHeap.pull_eq_some_iff, eligible_eq]

theorem getTask_of_eligible {q : TaskQueue} {affinity : String} {e : PrioritizedTask}
    (he : e ∈ q.Eligible affinity) :
    ∃ task, q.getTask e.taskId = some task ∧ task.status = .queued := by
  obtain ⟨-, task, hget, hstatus, -⟩ := he
  exact ⟨task, hget, hstatus⟩

theorem dequeue_eq_some_iff (q : TaskQueue) (affinity : String) (task : Task) :
    (q.dequeue affinity).1 = some task ↔
      ∃ e, IsLeast (q.Eligible affinity) e ∧ q.getTask e.taskId = some task := by
  rw [dequeue, Option.bind_eq_some_iff]
  exact exists_congr fun e => and_congr_left fun _ => pulled_iff q affinity e

theorem dequeue_eq_none_iff (q : TaskQueue) (affinity : String) :
    (q.dequeue affinity).1 = none ↔ q.Eligible affinity = ∅ := by
  rw [Set.eq_empty_iff_forall_notMem]
  constructor
  · intro hnone e he
    cases hpull : (q.heap.pull q.stale (q.fits affinity)).1 with
    | none =>
        rw [← eligible_eq] at he
        rw [LazyHeap.pull_eq_none_iff] at hpull
        have hfits := hpull e he.1 he.2.1
        rw [he.2.2] at hfits
        cases hfits
    | some least =>
        have hleast := (pulled_iff q affinity least).mp hpull
        obtain ⟨task, hget, -⟩ := getTask_of_eligible hleast.1
        rw [(dequeue_eq_some_iff q affinity task).mpr ⟨least, hleast, hget⟩] at hnone
        cases hnone
  · intro hempty
    cases hdequeue : (q.dequeue affinity).1 with
    | none => rfl
    | some task =>
        obtain ⟨e, he, -⟩ := (dequeue_eq_some_iff q affinity task).mp hdequeue
        exact absurd he.1 (hempty e)

/-- The entries of QUEUED tasks left in the heap are those from before, but
for the one of the task that is returned. -/
theorem live_dequeue_perm {q : TaskQueue} {affinity : String} {e : PrioritizedTask}
    (he : IsLeast (q.Eligible affinity) e) : q.live.Perm (e :: (q.dequeue affinity).2.live) :=
  q.heap.live_perm_of_pull q.stale (q.fits affinity) ((pulled_iff q affinity e).mpr he)

theorem live_dequeue_none {q : TaskQueue} {affinity : String}
    (hempty : q.Eligible affinity = ∅) : (q.dequeue affinity).2.live = q.live := by
  refine q.heap.live_of_pull_none q.stale (q.fits affinity) ?_
  cases hpull : (q.heap.pull q.stale (q.fits affinity)).1 with
  | none => rfl
  | some e =>
      have hmem := ((pulled_iff q affinity e).mp hpull).1
      rw [hempty] at hmem
      cases hmem

/-- In every state of a queue, also of one that began on a log, dequeue
returns the QUEUED task of the least entry it may take, none exactly if there
is none, and leaves the other entries of QUEUED tasks where they are. -/
theorem dequeue_least (clock : Nat → Moment) (wal : List WalRecord) (ops : List Op)
    (affinity : String) :
    let q := ops.foldl step (init clock wal)
    let r := q.dequeue affinity
    (∀ task, r.1 = some task →
      task.status = .queued ∧ Suits affinity task ∧
        ∃ e, IsLeast (q.Eligible affinity) e ∧ q.getTask e.taskId = some task ∧
          q.live.Perm (e :: r.2.live)) ∧
    (∀ e, IsLeast (q.Eligible affinity) e → r.1 = q.getTask e.taskId) ∧
    (r.1 = none ↔ q.Eligible affinity = ∅) ∧
    (r.1 = none → r.2.live = q.live) ∧
    r.2.tasks = q.tasks := by
  intro q r
  refine ⟨fun task htask => ?_, fun e he => ?_, dequeue_eq_none_iff q affinity, fun hnone => ?_, rfl⟩
  · obtain ⟨e, he, hget⟩ := (dequeue_eq_some_iff q affinity task).mp htask
    obtain ⟨-, task', hget', hstatus, hsuits⟩ := he.1
    obtain rfl := Option.some.inj (hget.symm.trans hget')
    exact ⟨hstatus, hsuits, e, he, hget, live_dequeue_perm he⟩
  · obtain ⟨task, hget, -⟩ := getTask_of_eligible he.1
    rw [hget]
    exact (dequeue_eq_some_iff q affinity task).mpr ⟨e, he, hget⟩
  · exact live_dequeue_none ((dequeue_eq_none_iff q affinity).mp hnone)

end TaskQueue

end Prodinamik.Grid
