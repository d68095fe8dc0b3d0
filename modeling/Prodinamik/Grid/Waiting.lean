import Mathlib.Data.Finset.Card
import Prodinamik.Grid.Delivery

namespace Prodinamik.Grid

open Lib

namespace TaskQueue

/-- How many tasks are ASSIGNED to a node. -/
def owned (q : TaskQueue) (nodeId : String) : Nat :=
  q.tasks.rows.countP fun t => t.status = .assigned ∧ t.assignedNode = nodeId

/-- The queued tasks that are in the heap, in the order in which they come out
of it when each is assigned at once. -/
def waitingIds (q : TaskQueue) : List String := (q.live.map PrioritizedTask.taskId).eraseDups

def waiting (q : TaskQueue) : List Task := q.waitingIds.filterMap q.tasks.get

theorem owned_of_tasks {q q' : TaskQueue} (h : q'.tasks = q.tasks) (nodeId : String) :
    q'.owned nodeId = q.owned nodeId := by
  rw [owned, owned, h]

theorem owned_put {q r : TaskQueue} {u : Task} (h : r.tasks = q.tasks.put u) (nodeId : String) :
    r.owned nodeId + (if q.assignee u.taskId = some nodeId then 1 else 0) =
      q.owned nodeId + if u.status = .assigned ∧ u.assignedNode = nodeId then 1 else 0 := by
  have hcount := q.tasks.countP_put u fun t => t.status = .assigned ∧ t.assignedNode = nodeId
  have hbefore : (q.tasks.get u.taskId).any (fun t =>
      decide (t.status = .assigned ∧ t.assignedNode = nodeId)) =
        decide (q.assignee u.taskId = some nodeId) := by
    rw [assignee, getTask]
    cases q.tasks.get u.taskId with
    | none => rfl
    | some task => by_cases hstatus : task.status = .assigned <;> simp [hstatus]
  rw [hbefore] at hcount
  simp only [decide_eq_true_eq] at hcount
  rw [owned, owned, h]
  exact hcount

/-- A task that is put anew and not ASSIGNED adds to no node. -/
theorem owned_put_le {q q' : TaskQueue} {u : Task} (h : q'.tasks = q.tasks.put u)
    (hstatus : u.status ≠ .assigned) (nodeId : String) : q'.owned nodeId ≤ q.owned nodeId := by
  have hput := owned_put h nodeId
  have hnone : ¬ (u.status = .assigned ∧ u.assignedNode = nodeId) := fun hu => hstatus hu.1
  rw [if_neg hnone] at hput
  omega

theorem owned_assign {q : TaskQueue} {task : Task} (hget : q.tasks.get task.taskId = some task)
    (hqueued : task.status = .queued) (nodeId : String) (now : Moment) (n : String) :
    (q.assign task nodeId now).owned n = q.owned n + if n = nodeId then 1 else 0 := by
  have hput := owned_put (q := q) (r := q.assign task nodeId now)
    (u := assignedTo task nodeId now) rfl n
  have hnot : q.statusOf task.taskId ≠ some .assigned := by
    rw [statusOf_of_get hget, hqueued]
    decide
  have hnone : q.assignee (assignedTo task nodeId now).taskId = none := assignee_eq_none hnot
  rw [hnone, if_neg (by simp)] at hput
  rw [← Nat.add_zero (owned (q.assign task nodeId now) n), hput]
  simp [assignedTo, eq_comm]

theorem live_assign {q : TaskQueue} (task : Task) (nodeId : String) (now : Moment) :
    (q.assign task nodeId now).live = q.live.filter fun e => e.taskId ≠ task.taskId := by
  have hstale : ∀ e, (q.assign task nodeId now).stale e =
      if e.taskId = task.taskId then true else q.stale e := by
    intro e
    have hget := q.tasks.get_put (assignedTo task nodeId now) e.taskId
    rw [stale, stale, assign, hget]
    by_cases he : e.taskId = task.taskId
    · have hkey : e.taskId = (assignedTo task nodeId now).taskId := he
      rw [if_pos hkey, if_pos he]
      rfl
    · have hkey : e.taskId ≠ (assignedTo task nodeId now).taskId := he
      rw [if_neg hkey, if_neg he]
  rw [live, live, LazyHeap.live, LazyHeap.live, List.filter_filter]
  refine List.filter_congr fun e _ => ?_
  rw [hstale]
  by_cases he : e.taskId = task.taskId <;> simp [he]

theorem length_eraseDups (ids : List String) : ids.eraseDups.length = ids.toFinset.card := by
  obtain ⟨n, hn⟩ : ∃ n, ids.length = n := ⟨_, rfl⟩
  induction n using Nat.strong_induction_on generalizing ids with
  | _ n ih =>
      cases ids with
      | nil => rfl
      | cons id ids =>
          have hshort : (ids.filter fun b => !b == id).length < n := by
            have := List.length_filter_le (fun b => !b == id) ids
            rw [List.length_cons] at hn
            omega
          have hset : (id :: ids).toFinset =
              insert id (ids.filter fun b => !b == id).toFinset := by
            ext b
            by_cases hb : b = id <;> simp [hb]
          rw [List.eraseDups_cons, List.length_cons, ih _ hshort _ rfl, hset,
            Finset.card_insert_of_notMem (by simp)]

theorem length_waiting (q : TaskQueue) :
    q.waiting.length = (q.live.map PrioritizedTask.taskId).toFinset.card := by
  have hall : ∀ id ∈ q.waitingIds, (q.tasks.get id).isSome := by
    intro id hid
    obtain ⟨e, he, rfl⟩ := List.mem_map.mp (List.mem_eraseDups.mp hid)
    obtain ⟨task, hget, -⟩ := get_of_mem_live he
    rw [hget]
    rfl
  have hlength : ∀ ids : List String, (∀ id ∈ ids, (q.tasks.get id).isSome) →
      (ids.filterMap q.tasks.get).length = ids.length := by
    intro ids hids
    induction ids with
    | nil => rfl
    | cons id ids ih =>
        obtain ⟨task, hget⟩ := Option.isSome_iff_exists.mp (hids id List.mem_cons_self)
        rw [List.filterMap_cons_some hget, List.length_cons, List.length_cons,
          ih fun id' hid' => hids id' (List.mem_cons_of_mem _ hid')]
  rw [waiting, hlength _ hall, waitingIds, length_eraseDups]

theorem waiting_eq_nil {q : TaskQueue} (h : q.live = []) : q.waiting = [] := by
  rw [waiting, waitingIds, h]
  rfl

theorem live_eq_nil {q : TaskQueue} (h : (q.dequeue "").1 = none) : q.live = [] := by
  have hnone := dequeue_eq_none h
  cases hq : q.live with
  | nil => rfl
  | cons e es =>
      have hfits : q.fits "" e = true := fits_any (by rw [hq]; exact List.mem_cons_self)
      rw [hq, List.find?_cons_of_pos hfits] at hnone
      cases hnone

/-- The first task that waits is dequeued, and the others wait while it is
assigned. -/
theorem waiting_dequeue {q r : TaskQueue} {task : Task} (hdequeue : q.dequeue "" = (some task, r))
    (nodeId : String) (now : Moment) :
    q.waiting = task :: (r.assign task nodeId now).waiting := by
  have htasks : r.tasks = q.tasks := (congrArg (TaskQueue.tasks ∘ Prod.snd) hdequeue).symm
  obtain ⟨e, hfind, hget, htaskId, -⟩ := dequeue_eq_some (congrArg Prod.fst hdequeue)
  have hlive : r.live = q.live.eraseP (q.fits "") := by
    rw [← live_dequeue, hdequeue]
  cases hq : q.live with
  | nil =>
      rw [hq] at hfind
      cases hfind
  | cons first rest =>
      have hfits : q.fits "" first = true := fits_any (by rw [hq]; exact List.mem_cons_self)
      rw [hq, List.find?_cons_of_pos hfits] at hfind
      obtain rfl := Option.some.inj hfind
      rw [hq, List.eraseP_cons_of_pos hfits] at hlive
      have hids : q.waitingIds = task.taskId :: (r.assign task nodeId now).waitingIds := by
        rw [waitingIds, waitingIds, live_assign, hlive, hq, List.map_cons, List.eraseDups_cons,
          htaskId, List.filter_map]
        congr 3
        refine List.filter_congr fun e' _ => ?_
        by_cases he : e'.taskId = first.taskId <;> simp [he]
      have hrest : ∀ ids : List String, task.taskId ∉ ids →
          ids.filterMap q.tasks.get = ids.filterMap (r.assign task nodeId now).tasks.get := by
        intro ids hnew
        refine List.filterMap_congr fun id hid => ?_
        have hne : id ≠ (assignedTo task nodeId now).taskId := fun h => hnew (h ▸ hid)
        have hput := r.tasks.get_put (assignedTo task nodeId now) id
        rw [if_neg hne] at hput
        rw [← htasks]
        exact hput.symm
      have hnew : task.taskId ∉ (r.assign task nodeId now).waitingIds := by
        intro hmem
        obtain ⟨e', he', hid⟩ := List.mem_map.mp (List.mem_eraseDups.mp hmem)
        rw [live_assign] at he'
        exact absurd hid (by simpa using (List.mem_filter.mp he').2)
      rw [← htaskId] at hget
      rw [waiting, hids, List.filterMap_cons_some hget, hrest _ hnew]
      rfl

end TaskQueue

end Prodinamik.Grid
