import Prodinamik.Grid.Service
import Prodinamik.Grid.Waiting
import Prodinamik.Lib.Run

namespace Prodinamik.Grid

open Lib Lib.Run

/-- The task has the priority and the affinity. -/
def Task.ofClass (p : Int) (a : String) (task : Task) : Bool := task.priority = p ∧ task.affinity = a

namespace TaskQueue

def entryClass (q : TaskQueue) (p : Int) (a : String) (e : PrioritizedTask) : Bool :=
  (q.getTask e.taskId).any (Task.ofClass p a)

/-- The ids of the tasks of a class that wait, in the order in which the heap
gives them out. -/
def inLine (q : TaskQueue) (p : Int) (a : String) : List String :=
  (q.live.filter (q.entryClass p a)).map PrioritizedTask.taskId

/-- Every entry is the only one of a QUEUED task and no younger than the clock. -/
structure Orderly (q : TaskQueue) (clock : Int) : Prop where
  nodup : (q.heap.entries.map PrioritizedTask.taskId).Nodup
  queued : ∀ e ∈ q.heap.entries, ∃ task, q.getTask e.taskId = some task ∧ task.status = .queued ∧
    task.priority = e.priority
  past : ∀ e ∈ q.heap.entries, e.timestamp ≤ clock
  named : ∀ id task, q.getTask id = some task → id ≠ ""

theorem Orderly.live {q : TaskQueue} {clock : Int} (h : q.Orderly clock) :
    q.live = q.heap.entries := by
  refine List.filter_eq_self.mpr fun e he => ?_
  obtain ⟨task, hget, hstatus, -⟩ := h.queued e he
  rw [stale_eq_false_iff.mpr (by rw [statusOf, hget, Option.map_some, hstatus])]
  rfl

theorem Orderly.later {q : TaskQueue} {clock clock' : Int} (h : q.Orderly clock)
    (hle : clock ≤ clock') : q.Orderly clock' :=
  ⟨h.nodup, h.queued, fun e he => (h.past e he).trans hle, h.named⟩

theorem entryClass_of_get {q : TaskQueue} {e : PrioritizedTask} {task : Task}
    (hget : q.getTask e.taskId = some task) (p : Int) (a : String) :
    q.entryClass p a e = task.ofClass p a := by
  rw [entryClass, hget]
  rfl

section

variable {q : TaskQueue} {clock : Int} (task : Task) (uuid : String) (now : Moment)

theorem getTask_enqueue (id : String) : (q.enqueue task uuid now).getTask id =
    if id = (enqueued task uuid now).taskId then some (enqueued task uuid now) else q.getTask id :=
  q.tasks.get_put (enqueued task uuid now) id

theorem getTask_enqueue_self :
    (q.enqueue task uuid now).getTask (entryOf (enqueued task uuid now) now.time).taskId =
      some (enqueued task uuid now) := by
  rw [getTask_enqueue]
  exact if_pos rfl

section Enqueue

variable {task uuid now} (h : q.Orderly clock)
  (hnew : ∀ e ∈ q.heap.entries, e.taskId ≠ (enqueued task uuid now).taskId)
  (htime : clock < now.time)

include hnew in
theorem getTask_enqueue_old : ∀ e ∈ q.heap.entries, (q.enqueue task uuid now).getTask e.taskId =
    q.getTask e.taskId := by
  intro e he
  rw [getTask_enqueue, if_neg (hnew e he)]

include h hnew htime

theorem Orderly.afterEnqueue : (q.enqueue task uuid now).Orderly now.time := by
  have hperm := q.heap.push_perm (entryOf (enqueued task uuid now) now.time)
  have hmem : ∀ e, e ∈ (q.enqueue task uuid now).heap.entries ↔
      e = entryOf (enqueued task uuid now) now.time ∨ e ∈ q.heap.entries := fun e =>
    hperm.mem_iff.trans List.mem_cons
  refine ⟨?_, fun e he => ?_, fun e he => ?_, fun id task' hid => ?_⟩
  · refine (hperm.map PrioritizedTask.taskId).nodup_iff.mpr
      (List.nodup_cons.mpr ⟨fun hid => ?_, h.nodup⟩)
    obtain ⟨e, he, hsame⟩ := List.mem_map.mp hid
    exact hnew e he hsame
  · rcases (hmem e).mp he with rfl | he
    · exact ⟨_, getTask_enqueue_self task uuid now, rfl, rfl⟩
    · rw [getTask_enqueue_old hnew e he]
      exact h.queued e he
  · rcases (hmem e).mp he with rfl | he
    · exact le_refl now.time
    · exact (h.past e he).trans htime.le
  · rw [getTask_enqueue] at hid
    split at hid
    case isTrue hsame =>
      rw [hsame]
      exact enqueued_taskId_ne task uuid now
    case isFalse => exact h.named id task' hid

/-- An entry of the class of a new one has its priority, and is older. -/
theorem Orderly.rank_le_new {p : Int} {a : String} (hc : task.ofClass p a = true)
    {e : PrioritizedTask} (he : e ∈ q.heap.entries)
    (hce : (q.enqueue task uuid now).entryClass p a e = true) :
    e.rank ≤ (entryOf (enqueued task uuid now) now.time).rank := by
  obtain ⟨other, hother, -, hpriority⟩ := h.queued e he
  rw [Task.ofClass, decide_eq_true_eq] at hc
  rw [entryClass, getTask_enqueue_old hnew e he, hother, Option.any_some, Task.ofClass,
    decide_eq_true_eq, hpriority] at hce
  have hbefore : e.timestamp < now.time := (h.past e he).trans_lt htime
  refine Prod.Lex.le_iff.mpr (.inr ⟨?_, Prod.Lex.le_iff.mpr (.inl hbefore)⟩)
  exact hce.1.trans hc.1.symm

/-- A task with no entry in the heap goes to the end of its class. -/
theorem Orderly.inLine_enqueue (p : Int) (a : String) :
    (q.enqueue task uuid now).inLine p a =
      q.inLine p a ++ if task.ofClass p a then [(enqueued task uuid now).taskId] else [] := by
  have hclass : (q.enqueue task uuid now).entryClass p a
      (entryOf (enqueued task uuid now) now.time) = task.ofClass p a :=
    entryClass_of_get (getTask_enqueue_self task uuid now) p a
  have hpush := LazyHeap.filter_push (h := q.heap)
    (a := entryOf (enqueued task uuid now) now.time)
    (p := (q.enqueue task uuid now).entryClass p a) fun hc e he hce =>
      h.rank_le_new hnew htime (hclass ▸ hc) he hce
  have hfilter : q.heap.entries.filter ((q.enqueue task uuid now).entryClass p a) =
      q.heap.entries.filter (q.entryClass p a) := by
    refine List.filter_congr fun e he => ?_
    rw [entryClass, getTask_enqueue_old hnew e he]
    rfl
  rw [hfilter, hclass] at hpush
  rw [inLine, inLine, (h.afterEnqueue hnew htime).live, h.live]
  refine (congrArg (List.map PrioritizedTask.taskId) hpush).trans ?_
  rw [List.map_append]
  by_cases hc : task.ofClass p a = true
  · rw [if_pos hc, if_pos hc]
    rfl
  · rw [if_neg hc, if_neg hc]
    rfl

end Enqueue

theorem Orderly.notMem_inLine (h : q.Orderly clock) {id : String}
    (hout : ∀ e ∈ q.heap.entries, e.taskId ≠ id) (p : Int) (a : String) : id ∉ q.inLine p a := by
  intro hmem
  obtain ⟨e, he, hsame⟩ := List.mem_map.mp hmem
  have hentry := List.mem_of_mem_filter he
  rw [h.live] at hentry
  exact hout e hentry hsame

theorem Orderly.afterDequeue (h : q.Orderly clock) (affinity : String) :
    (q.dequeue affinity).2.Orderly clock := by
  have hsub : (q.dequeue affinity).2.heap.entries.Sublist q.heap.entries :=
    q.heap.pull_sublist q.stale (q.fits affinity)
  exact ⟨h.nodup.sublist (hsub.map _), fun e he => h.queued e (hsub.subset he),
    fun e he => h.past e (hsub.subset he), h.named⟩

/-- The first task leaves the line of its class when it is dequeued. -/
theorem Orderly.dequeue {r : TaskQueue} {task : Task} (h : q.Orderly clock)
    (hdequeue : q.dequeue "" = (some task, r)) :
    r.Orderly clock ∧ r.tasks = q.tasks ∧ q.getTask task.taskId = some task ∧
      task.status = .queued ∧ (∀ e ∈ r.heap.entries, e.taskId ≠ task.taskId) ∧
      ∀ p a, q.inLine p a =
        (if task.ofClass p a then [task.taskId] else []) ++ r.inLine p a := by
  have htasks : r.tasks = q.tasks := (congrArg (TaskQueue.tasks ∘ Prod.snd) hdequeue).symm
  have hgetTask : ∀ id, r.getTask id = q.getTask id := fun id => by rw [getTask, htasks]; rfl
  obtain ⟨e, hfind, hget, htask, hstatus⟩ := dequeue_eq_some (congrArg Prod.fst hdequeue)
  have horderly : r.Orderly clock := by
    have hafter := h.afterDequeue ""
    rwa [hdequeue] at hafter
  have hlive : q.live = e :: r.live := by
    have hafter : r.live = q.live.eraseP (q.fits "") := by
      rw [← live_dequeue, hdequeue]
    cases hq : q.live with
    | nil =>
        rw [hq] at hfind
        cases hfind
    | cons first rest =>
        have hfits : q.fits "" first = true := fits_any (by rw [hq]; exact List.mem_cons_self)
        rw [hq, List.find?_cons_of_pos hfits] at hfind
        rw [hafter, hq, List.eraseP_cons_of_pos hfits, Option.some.inj hfind]
  have hids : ∀ e' ∈ r.heap.entries, e'.taskId ≠ task.taskId := by
    intro e' he' hsame
    have hnodup := h.nodup
    rw [← h.live, hlive, List.map_cons, List.nodup_cons, ← htask] at hnodup
    rw [← horderly.live] at he'
    exact hnodup.1 (hsame ▸ List.mem_map_of_mem he')
  refine ⟨horderly, htasks, by rw [htask]; exact hget, hstatus, hids, fun p a => ?_⟩
  have hclass : r.entryClass p a = q.entryClass p a := by
    funext e'
    rw [entryClass, hgetTask]
    rfl
  rw [inLine, inLine, hlive, hclass]
  by_cases hc : task.ofClass p a = true
  · rw [if_pos hc, List.filter_cons_of_pos (by rw [entryClass_of_get hget]; exact hc),
      List.map_cons, htask]
    rfl
  · rw [if_neg hc, List.filter_cons_of_neg (by rw [entryClass_of_get hget]; exact hc)]
    rfl

/-- A task that is assigned is no longer in the heap, and no other task moves. -/
theorem Orderly.assign {task : Task} (h : q.Orderly clock)
    (hget : q.getTask task.taskId = some task)
    (hout : ∀ e ∈ q.heap.entries, e.taskId ≠ task.taskId) (nodeId : String) (now : Moment) :
    (q.assign task nodeId now).Orderly clock ∧
      ∀ p a, (q.assign task nodeId now).inLine p a = q.inLine p a := by
  have hgetTask : ∀ id, (q.assign task nodeId now).getTask id =
      if id = task.taskId then some (assignedTo task nodeId now) else q.getTask id :=
    fun id => q.tasks.get_put (assignedTo task nodeId now) id
  have hkept : ∀ e ∈ q.heap.entries, (q.assign task nodeId now).getTask e.taskId =
      q.getTask e.taskId := fun e he => by rw [hgetTask, if_neg (hout e he)]
  have horderly : (q.assign task nodeId now).Orderly clock := by
    refine ⟨h.nodup, fun e he => ?_, h.past, fun id task' hid => ?_⟩
    · rw [hkept e he]
      exact h.queued e he
    · rw [hgetTask] at hid
      split at hid
      case isTrue hsame =>
        rw [hsame]
        exact h.named _ task hget
      case isFalse => exact h.named id task' hid
  refine ⟨horderly, fun p a => ?_⟩
  rw [inLine, inLine, horderly.live, h.live]
  refine congrArg (List.map PrioritizedTask.taskId) (List.filter_congr fun e he => ?_)
  rw [entryClass, hkept e he]
  rfl

end

end TaskQueue

namespace Scheduler

variable (registry : AgentRegistry) (ticks : Nat → Tick)

/-- The tasks the loop of try_assign assigns, one after another. -/
def given : Nat → TaskQueue → List Task
  | 0, _ => []
  | k + 1, q =>
      match q.dequeue "" with
      | (none, _) => []
      | (some task, q) =>
          match schedule registry (ticks k) q task with
          | (some _, q) => task :: given k q
          | (none, _) => []

/-- The task the loop puts back, and the queue it puts it back into. -/
def putBack : Nat → TaskQueue → Option (Task × TaskQueue)
  | 0, _ => none
  | k + 1, q =>
      match q.dequeue "" with
      | (none, _) => none
      | (some task, q) =>
          match schedule registry (ticks k) q task with
          | (some _, q) => putBack k q
          | (none, q) => some (task, q)

/-- No other task of the class of the one that is put back is waiting. -/
def Alone (k : Nat) (q : TaskQueue) : Prop :=
  ∀ r ∈ putBack registry ticks k q, r.2.inLine r.1.priority r.1.affinity = []

instance (k : Nat) (q : TaskQueue) : Decidable (Alone registry ticks k q) :=
  inferInstanceAs (Decidable (∀ r ∈ putBack registry ticks k q,
    r.2.inLine r.1.priority r.1.affinity = []))

def idsOfClass (p : Int) (a : String) (tasks : List Task) : List String :=
  (tasks.filter (Task.ofClass p a)).map Task.taskId

theorem length_given (k : Nat) (q : TaskQueue) :
    (given registry ticks k q).length = (assignLoop registry ticks k q).1 := by
  induction k generalizing q with
  | zero => rfl
  | succ k ih =>
      rw [given, assignLoop]
      cases q.dequeue "" with
      | mk found q' =>
          cases found with
          | none => rfl
          | some task =>
              simp only
              cases schedule registry (ticks k) q' task with
              | mk node q'' =>
                  cases node with
                  | none => rfl
                  | some nodeId => exact congrArg Nat.succ (ih q'')

theorem idsOfClass_cons (p : Int) (a : String) (task : Task) (tasks : List Task) :
    idsOfClass p a (task :: tasks) =
      (if task.ofClass p a then [task.taskId] else []) ++ idsOfClass p a tasks := by
  by_cases hc : task.ofClass p a = true
  · rw [if_pos hc, idsOfClass, List.filter_cons_of_pos hc]
    rfl
  · rw [if_neg hc, idsOfClass, List.filter_cons_of_neg hc]
    rfl

theorem ofClass_iff {p : Int} {a : String} {task : Task} :
    task.ofClass p a = true ↔ p = task.priority ∧ a = task.affinity := by
  rw [Task.ofClass, decide_eq_true_eq, eq_comm, @eq_comm _ task.affinity]

/-- To move the first of its class to the end keeps the order only where it is
the only one. -/
theorem moved_iff {task : Task} {line : Int → String → List String}
    (hnew : ∀ p a, task.taskId ∉ line p a) :
    (∀ p a, (if task.ofClass p a then [task.taskId] else []) ++ line p a =
      line p a ++ if task.ofClass p a then [task.taskId] else []) ↔
      line task.priority task.affinity = [] := by
  constructor
  · intro h
    have hclass := h task.priority task.affinity
    rw [if_pos (ofClass_iff.mpr ⟨rfl, rfl⟩)] at hclass
    cases hline : line task.priority task.affinity with
    | nil => rfl
    | cons first rest =>
        rw [hline, List.singleton_append, List.cons_append] at hclass
        have hhead := (List.cons.inj hclass).1
        have hnot := hnew task.priority task.affinity
        rw [hline, hhead] at hnot
        exact absurd List.mem_cons_self hnot
  · intro hnil p a
    by_cases hc : task.ofClass p a = true
    · obtain ⟨rfl, rfl⟩ := ofClass_iff.mp hc
      rw [if_pos hc, hnil]
      rfl
    · rw [if_neg hc, List.append_nil, List.nil_append]

/-- A pass hands out tasks from the front of each class; it keeps the order of
the others just where it puts back a task that is the last of its class. -/
theorem assignLoop_line_iff (k : Nat) {q : TaskQueue} {clock last : Int} (h : q.Orderly clock)
    (hticks : ∀ j, clock < (ticks j).time ∧ (ticks j).time ≤ last) :
    (assignLoop registry ticks k q).2.Orderly last ∧
      ((∀ p a, q.inLine p a = idsOfClass p a (given registry ticks k q) ++
        (assignLoop registry ticks k q).2.inLine p a) ↔ Alone registry ticks k q) := by
  have hlast : clock ≤ last := ((hticks 0).1.trans_le (hticks 0).2).le
  induction k generalizing q with
  | zero =>
      refine ⟨h.later hlast, iff_of_true (fun p a => rfl) fun r hr => ?_⟩
      cases hr
  | succ k ih =>
      rw [Alone, putBack, assignLoop, given]
      cases hdequeue : q.dequeue "" with
      | mk found r =>
          cases found with
          | none =>
              have hr : r.Orderly clock := by
                have hafter := h.afterDequeue ""
                rwa [hdequeue] at hafter
              have hempty : q.live = [] := TaskQueue.live_eq_nil (congrArg Prod.fst hdequeue)
              have hrempty : r.live = [] := by
                have hlive := q.live_dequeue ""
                rwa [hdequeue, hempty] at hlive
              refine ⟨hr.later hlast, iff_of_true (fun p a => ?_) fun r' hr' => ?_⟩
              · rw [TaskQueue.inLine, TaskQueue.inLine, hempty, hrempty]
                rfl
              · cases hr'
          | some task =>
              obtain ⟨hr, htasks, hget, hstatus, hout, hline⟩ := h.dequeue hdequeue
              have hgetr : r.getTask task.taskId = some task := by
                rw [TaskQueue.getTask, htasks]
                exact hget
              simp only [schedule, hstatus, ne_eq, not_true_eq_false, if_false]
              cases chooseNode registry (ticks k) task with
              | some nodeId =>
                  have hassign : (r.acknowledge task.taskId nodeId (ticks k).toMoment).getD r =
                      r.assign task nodeId (ticks k).toMoment := (TaskQueue.step_of_known hgetr).1 _ _
                  obtain ⟨hq', hline'⟩ := hr.assign hgetr hout nodeId (ticks k).toMoment
                  simp only [hassign]
                  obtain ⟨hend, hiff⟩ := ih hq'
                  refine ⟨hend, Iff.trans (forall_congr' fun p => forall_congr' fun a => ?_) hiff⟩
                  rw [hline, hline', idsOfClass_cons, List.append_assoc, List.append_right_inj]
              | none =>
                  have hid : (TaskQueue.enqueued task (ticks k).uuid (ticks k).toMoment).taskId =
                      task.taskId := if_neg (h.named _ task hget)
                  rw [← hid] at hout
                  refine ⟨(hr.afterEnqueue hout (hticks k).1).later (hticks k).2, ?_⟩
                  have halone : (∀ r' ∈ some (task, r), r'.2.inLine r'.1.priority r'.1.affinity =
                      []) ↔ r.inLine task.priority task.affinity = [] := by
                    simp
                  simp only [halone, hline, hr.inLine_enqueue hout (hticks k).1, hid, idsOfClass,
                    List.filter_nil, List.map_nil, List.nil_append]
                  exact moved_iff fun p a => hr.notMem_inLine (hid ▸ hout) p a

end Scheduler

/-- A queue with its registry, what was submitted to it and handed out of it so
far, and the last reading of the clock. -/
structure Intake where
  queue : TaskQueue
  registry : AgentRegistry
  submitted : List Task
  handed : List Task
  clock : Int

namespace Intake

inductive Event
  | submit (task : Task) (uuid : String) (now : Moment)
  | heartbeat (nodeId : String) (data : HeartbeatData) (now : Int)
  | tryAssign (ticks : Nat → Tick)

/-- How often the loop of try_assign goes round at most. -/
def rounds (d : Intake) : Nat := min 50 d.queue.queueDepth

def step (d : Intake) : Event → Intake
  | .submit task uuid now =>
      { d with
        queue := d.queue.enqueue task uuid now
        submitted := d.submitted ++ [TaskQueue.enqueued task uuid now]
        clock := now.time }
  | .heartbeat nodeId data now =>
      { d with
        registry := CoordinatorNode.noteHeartbeat d.registry nodeId data now
        clock := now }
  | .tryAssign ticks =>
      { d with
        queue := (Scheduler.tryAssign d.registry ticks d.queue).2
        handed := d.handed ++ Scheduler.given d.registry ticks d.rounds d.queue
        clock := (ticks 0).time }

def start (heartbeatTtl time : Int) : Intake := ⟨.empty, .new heartbeatTtl, [], [], time⟩

/-- Each submission is of a new task, and the clock goes on; a pass counts its
readings down. -/
def Proper (d : Intake) : Event → Prop
  | .submit task uuid now =>
      d.queue.getTask (TaskQueue.enqueued task uuid now).taskId = none ∧ d.clock < now.time
  | .heartbeat _ _ now => d.clock < now
  | .tryAssign ticks => ∀ k, d.clock < (ticks k).time ∧ (ticks k).time ≤ (ticks 0).time

/-- Of each class the first tasks that were submitted are handed out, in that
order. -/
def InOrder (d : Intake) : Prop :=
  ∀ p a, Scheduler.idsOfClass p a d.handed <+: Scheduler.idsOfClass p a d.submitted

/-- The others wait in the order in which they were submitted. -/
def InLine (d : Intake) : Prop :=
  ∀ p a, Scheduler.idsOfClass p a d.submitted =
    Scheduler.idsOfClass p a d.handed ++ d.queue.inLine p a

/-- No pass puts a task back while another one of its priority and affinity
waits. -/
def Unrivalled (d : Intake) : Event → Prop
  | .tryAssign ticks => Scheduler.Alone d.registry ticks d.rounds d.queue
  | _ => True

theorem proper_standing {d : Intake} {time : Int} (h : d.clock < time) :
    d.Proper (.tryAssign (standing time)) := fun _ => ⟨h, le_refl _⟩

theorem InLine.inOrder {d : Intake} (h : d.InLine) : d.InOrder := fun p a => ⟨_, (h p a).symm⟩

theorem idsOfClass_append (p : Int) (a : String) (tasks tasks' : List Task) :
    Scheduler.idsOfClass p a (tasks ++ tasks') =
      Scheduler.idsOfClass p a tasks ++ Scheduler.idsOfClass p a tasks' := by
  rw [Scheduler.idsOfClass, List.filter_append, List.map_append]
  rfl

theorem step_inLine_iff {d : Intake} (hq : d.queue.Orderly d.clock) (h : d.InLine) {event : Event}
    (hproper : d.Proper event) :
    (d.step event).queue.Orderly (d.step event).clock ∧
      ((d.step event).InLine ↔ d.Unrivalled event) := by
  cases event with
  | submit task uuid now =>
      have hnew : ∀ e ∈ d.queue.heap.entries,
          e.taskId ≠ (TaskQueue.enqueued task uuid now).taskId := by
        intro e he hsame
        obtain ⟨other, hget, -⟩ := hq.queued e he
        rw [hsame, hproper.1] at hget
        cases hget
      refine ⟨hq.afterEnqueue hnew hproper.2, iff_of_true (fun p a => ?_) trivial⟩
      have hone : Scheduler.idsOfClass p a [TaskQueue.enqueued task uuid now] =
          if task.ofClass p a then [(TaskQueue.enqueued task uuid now).taskId] else [] :=
        (Scheduler.idsOfClass_cons p a _ []).trans (List.append_nil _)
      simp only [step]
      rw [idsOfClass_append, h p a, hone, hq.inLine_enqueue hnew hproper.2, List.append_assoc]
  | heartbeat nodeId data now => exact ⟨hq.later hproper.le, iff_of_true h trivial⟩
  | tryAssign ticks =>
      obtain ⟨horderly, hiff⟩ :=
        Scheduler.assignLoop_line_iff d.registry ticks d.rounds hq hproper
      refine ⟨horderly, Iff.trans (forall_congr' fun p => forall_congr' fun a => ?_) hiff⟩
      simp only [step]
      rw [idsOfClass_append, h p a, List.append_assoc, List.append_right_inj]
      rfl

theorem start_orderly (heartbeatTtl time : Int) :
    (start heartbeatTtl time).queue.Orderly (start heartbeatTtl time).clock :=
  ⟨List.nodup_nil, fun _ he => (List.not_mem_nil he).elim, fun _ he => (List.not_mem_nil he).elim,
    fun _ _ hid => (by cases hid)⟩

/-- Tasks of one priority and affinity are handed out in the order of their
submission as long as no pass puts one back while another of them waits; and
that is just what keeps those that wait in this order. -/
theorem fifo_run (heartbeatTtl time : Int) {events : List Event}
    (h : Steps step Proper (start heartbeatTtl time) events) :
    (Steps step Unrivalled (start heartbeatTtl time) events →
      Always step InOrder (start heartbeatTtl time) events) ∧
    (Always step InLine (start heartbeatTtl time) events ↔
      Steps step Unrivalled (start heartbeatTtl time) events) := by
  have hiff : Always step InLine (start heartbeatTtl time) events ↔
      Steps step Unrivalled (start heartbeatTtl time) events :=
    always_iff_steps (fun d : Intake => d.queue.Orderly d.clock)
      (fun d event hq hline hproper => step_inLine_iff hq hline hproper)
      (start_orderly heartbeatTtl time) (fun p a => rfl) h
  exact ⟨fun hsteps => (hiff.mpr hsteps).imp (fun d hd => hd.inOrder) fun _ _ _ => trivial, hiff⟩

/-- A task submitted and tried before there is a node, and another one. -/
def twoTasks : List Event :=
  [.submit { taskId := "a" } "" ⟨1, ""⟩, .tryAssign (standing 2),
    .submit { taskId := "b" } "" ⟨3, ""⟩, .heartbeat "n" {} 4, .heartbeat "n" {} 5,
    .tryAssign (standing 6)]

theorem fifo_run_twoTasks : Always step InOrder (start 10 0) twoTasks := by
  refine (fifo_run 10 0 ?_).1 ?_
  · exact ⟨trivial, ⟨rfl, by decide⟩, trivial, proper_standing (by decide +kernel), trivial,
      ⟨by decide +kernel, by decide +kernel⟩, trivial, (by decide : (3 : Int) < 4), trivial,
      (by decide : (4 : Int) < 5), trivial, proper_standing (by decide +kernel), trivial⟩
  · exact ⟨trivial, trivial, trivial, (by decide +kernel : Scheduler.Alone _ _ _ _), trivial, trivial,
      trivial, trivial, trivial, trivial, trivial, (by decide +kernel : Scheduler.Alone _ _ _ _),
      trivial⟩

/-- The same with the pass after both submissions: the first task is put back
behind the second one. -/
def overtaken : List Event :=
  [.submit { taskId := "a" } "" ⟨1, ""⟩, .submit { taskId := "b" } "" ⟨2, ""⟩,
    .tryAssign (standing 3), .heartbeat "n" {} 4, .heartbeat "n" {} 5, .tryAssign (standing 6)]

theorem not_fifo_run :
    ¬ ∀ (heartbeatTtl time : Int) (events : List Event),
      Steps step Proper (start heartbeatTtl time) events →
      Always step InOrder (start heartbeatTtl time) events := by
  intro h
  have hlast := (h 10 0 overtaken ⟨trivial, ⟨rfl, by decide⟩, trivial,
    ⟨by decide +kernel, by decide +kernel⟩, trivial, proper_standing (by decide +kernel), trivial,
    (by decide : (3 : Int) < 4), trivial, (by decide : (4 : Int) < 5), trivial,
    proper_standing (by decide +kernel), trivial⟩).last
  exact absurd (hlast 2 "") (by decide +kernel)

end Intake

end Prodinamik.Grid
