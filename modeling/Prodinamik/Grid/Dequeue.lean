import Prodinamik.Grid.Log

namespace Prodinamik.Grid

open Lib

namespace TaskQueue

/-- The entries dequeue can still give out. -/
def live (q : TaskQueue) : List PrioritizedTask := q.heap.live q.stale

theorem stale_eq_false_iff {q : TaskQueue} {e : PrioritizedTask} :
    q.stale e = false ↔ q.statusOf e.taskId = some .queued := by
  rw [stale, statusOf, getTask]
  cases q.tasks.get e.taskId <;> simp

theorem mem_live {q : TaskQueue} {e : PrioritizedTask} :
    e ∈ q.live ↔ e ∈ q.heap.entries ∧ q.statusOf e.taskId = some .queued := by
  rw [live, LazyHeap.live, List.mem_filter, ← stale_eq_false_iff]
  simp

theorem dequeue_fst (q : TaskQueue) (affinity : String) :
    (q.dequeue affinity).1 = (q.live.find? (q.fits affinity)).bind fun e => q.tasks.get e.taskId := by
  rw [dequeue, live, LazyHeap.pull_fst]

theorem live_dequeue (q : TaskQueue) (affinity : String) :
    (q.dequeue affinity).2.live = q.live.eraseP (q.fits affinity) :=
  q.heap.live_pull q.stale (q.fits affinity)

theorem fits_any {q : TaskQueue} {e : PrioritizedTask} (he : e ∈ q.live) : q.fits "" e = true := by
  have hlive : q.stale e = false := by simpa using (List.mem_filter.mp he).2
  rw [stale] at hlive
  rw [fits]
  cases hget : q.tasks.get e.taskId with
  | none => simp [hget] at hlive
  | some task => simp

theorem get_of_mem_live {q : TaskQueue} {e : PrioritizedTask} (he : e ∈ q.live) :
    ∃ task, q.tasks.get e.taskId = some task ∧ task.status = .queued := by
  have hstatus := (mem_live.mp he).2
  rw [statusOf, getTask] at hstatus
  exact Option.map_eq_some_iff.mp hstatus

theorem dequeue_eq_some {q : TaskQueue} {affinity : String} {task : Task}
    (h : (q.dequeue affinity).1 = some task) :
    ∃ e, q.live.find? (q.fits affinity) = some e ∧ q.tasks.get e.taskId = some task ∧
      task.taskId = e.taskId ∧ task.status = .queued := by
  rw [dequeue_fst] at h
  obtain ⟨e, he, hget⟩ := Option.bind_eq_some_iff.mp h
  obtain ⟨task', hget', hstatus⟩ := get_of_mem_live (List.mem_of_find?_eq_some he)
  rw [hget] at hget'
  cases hget'
  exact ⟨e, he, hget, Table.key_of_get hget, hstatus⟩

theorem dequeue_eq_none {q : TaskQueue} {affinity : String}
    (h : (q.dequeue affinity).1 = none) : q.live.find? (q.fits affinity) = none := by
  rw [dequeue_fst] at h
  cases he : q.live.find? (q.fits affinity) with
  | none => rfl
  | some e =>
      obtain ⟨task, hget, -⟩ := get_of_mem_live (List.mem_of_find?_eq_some he)
      rw [he, Option.bind_some, hget] at h
      cases h

/-- How many entries of a task the heap holds, stale or not. -/
def held (q : TaskQueue) (id : String) : Nat := q.heap.entries.countP fun e => e.taskId = id

theorem countP_live (q : TaskQueue) (id : String) :
    q.live.countP (fun e => e.taskId = id) =
      if q.statusOf id = some .queued then q.held id else 0 := by
  rw [live, LazyHeap.live, List.countP_filter]
  split
  case isTrue h =>
    refine List.countP_congr fun e _ => ?_
    rw [Bool.and_eq_true, decide_eq_true_eq]
    refine ⟨And.left, fun he => ⟨he, ?_⟩⟩
    rw [stale_eq_false_iff.mpr (he ▸ h)]
    rfl
  case isFalse h =>
    refine List.countP_eq_zero.mpr fun e _ he => h ?_
    rw [Bool.and_eq_true, decide_eq_true_eq] at he
    exact he.1 ▸ stale_eq_false_iff.mp (by simpa using he.2)

/-- A dequeue takes one entry of the task it returns; of the others only
stale ones go. -/
theorem held_dequeue {q : TaskQueue} {affinity : String} {id : String}
    (hid : q.statusOf id = some .queued) :
    q.held id = (q.dequeue affinity).2.held id +
      if ∃ task ∈ (q.dequeue affinity).1, task.taskId = id then 1 else 0 := by
  have hlive : q.held id = q.live.countP fun e => e.taskId = id := by
    rw [countP_live, if_pos hid]
  have hafter : (q.dequeue affinity).2.held id =
      (q.live.eraseP (q.fits affinity)).countP fun e => e.taskId = id := by
    rw [← live_dequeue, countP_live, if_pos]
    exact hid
  rw [hlive, hafter]
  cases hdequeue : (q.dequeue affinity).1 with
  | none =>
      have hnone := List.find?_eq_none.mp (dequeue_eq_none hdequeue)
      rw [List.eraseP_of_forall_not fun e he => hnone e he]
      simp
  | some task =>
      obtain ⟨e, he, -, htask, -⟩ := dequeue_eq_some hdequeue
      rw [(LazyHeap.perm_cons_eraseP he).countP_eq, List.countP_cons]
      simp [htask]

/-- What dequeue returns to one call after another. -/
def dequeues : TaskQueue → List String → List (Option Task)
  | _, [] => []
  | q, affinity :: rest => (q.dequeue affinity).1 :: (q.dequeue affinity).2.dequeues rest

/-- Some later dequeue returns the task. -/
def Served (q : TaskQueue) (id : String) : Prop :=
  ∃ affinities task, some task ∈ q.dequeues affinities ∧ task.taskId = id

theorem queued_of_mem_dequeues {q : TaskQueue} {affinities : List String} {task : Task}
    (h : some task ∈ q.dequeues affinities) : q.statusOf task.taskId = some .queued := by
  induction affinities generalizing q with
  | nil => cases h
  | cons affinity rest ih =>
      rcases List.mem_cons.mp h with hfirst | hrest
      · obtain ⟨e, -, hget, htask, hstatus⟩ := dequeue_eq_some hfirst.symm
        rw [htask, statusOf_of_get hget, hstatus]
      · exact ih (q := (q.dequeue affinity).2) hrest

theorem served_of_mem_live {q : TaskQueue} {e : PrioritizedTask} (he : e ∈ q.live) :
    q.Served e.taskId := by
  obtain ⟨n, hn⟩ : ∃ n, q.live.length = n := ⟨_, rfl⟩
  induction n generalizing q with
  | zero =>
      rw [List.length_eq_zero_iff.mp hn] at he
      cases he
  | succ n ih =>
      obtain ⟨first, rest, hlive⟩ := List.exists_cons_of_length_eq_add_one hn
      have hmem : first ∈ q.live := by rw [hlive]; exact List.mem_cons_self
      obtain ⟨task, hget, -⟩ := get_of_mem_live hmem
      have hfound : (q.dequeue "").1 = some task := by
        rw [dequeue_fst, hlive, List.find?_cons_of_pos (fits_any hmem), Option.bind_some, hget]
      have hafter : (q.dequeue "").2.live = rest := by
        rw [live_dequeue, hlive, List.eraseP_cons_of_pos (fits_any hmem)]
      rw [hlive] at he
      rcases List.mem_cons.mp he with rfl | hrest
      · exact ⟨[""], task, by rw [dequeues, hfound]; exact List.mem_cons_self,
          Table.key_of_get hget⟩
      · rw [hlive, List.length_cons] at hn
        obtain ⟨affinities, task', htask', hid⟩ :=
          ih (q := (q.dequeue "").2) (by rwa [hafter]) (by rw [hafter]; exact Nat.succ.inj hn)
        exact ⟨"" :: affinities, task', List.mem_cons_of_mem _ htask', hid⟩

/-- A queued task with an entry in the heap is returned in the end. -/
theorem served_iff {q : TaskQueue} {id : String} (hheld : 0 < q.held id) :
    q.Served id ↔ q.statusOf id = some .queued := by
  constructor
  · rintro ⟨affinities, task, htask, rfl⟩
    exact queued_of_mem_dequeues htask
  · intro hid
    obtain ⟨e, he, hsame⟩ := List.countP_pos_iff.mp hheld
    rw [decide_eq_true_eq] at hsame
    rw [← hsame]
    exact served_of_mem_live (mem_live.mpr ⟨he, hsame ▸ hid⟩)

end TaskQueue

end Prodinamik.Grid
