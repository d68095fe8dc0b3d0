import Mathlib.Algebra.Order.Group.Int
import Prodinamik.Lib.PyList
import Prodinamik.Lib.Table
import Prodinamik.Lib.Throttle

namespace Prodinamik.Agents

open Lib Lib.Throttle

inductive AgentTaskType
  | skillEmergence
  | healthCheck
  | driftPersist
  | dataCollection
  | maintenance
  | custom
  deriving DecidableEq, Repr

inductive AgentTaskStatus
  | pending
  | running
  | completed
  | failed
  | skipped
  deriving DecidableEq, Repr

structure AgentTask (T R : Type) where
  taskId : String
  taskType : AgentTaskType
  description : String
  intervalSeconds : T
  handler : Bool
  status : AgentTaskStatus := .pending
  lastRun : Option T := none
  nextRun : Option T := none
  result : Option R := none
  error : Option String := none
  runCount : Nat := 0
  successCount : Nat := 0

/-- An entry of the execution history. -/
structure Execution (T : Type) where
  taskId : String
  status : AgentTaskStatus
  timestamp : T
  deriving DecidableEq, Repr

/-- The tasks are objects, which handlers that are awaited go on with when their id is given
to another one or removed; they are named by the order in which they were made. -/
structure WarmAgentCoordinator (T R : Type) where
  objects : List (AgentTask T R) := []
  tasks : Table (Prod.fst : String × Nat → String) := .empty
  awaited : List Nat := []
  totalExecutions : Nat := 0
  totalFailures : Nat := 0
  executionHistory : List (Execution T) := []

/-- What befalls a coordinator: a call, the loop coming to a task (it reads the clock to see
whether the task is due and again when it starts it), a handler that returns or raises, and the
cancellation of one that is awaited. In which order the loop comes to the tasks is left open. -/
inductive CoordinatorEvent (T R : Type)
  | add (taskId : String) (taskType : AgentTaskType) (description : String) (interval : T)
      (handler : Bool) (now : T)
  | remove (taskId : String)
  | check (taskId : String) (reading stamp : T)
  | finish (task : Nat) (outcome : Except String R) (now : T)
  | cancel (task : Nat)

variable {T R : Type} [AddCommGroup T] [LinearOrder T]

def AgentTask.isDue (t : AgentTask T R) (now : T) : Bool :=
  match t.nextRun with
  | none => true
  | some next => next ≤ now

/-- The first lines of _run_task. -/
def AgentTask.start (t : AgentTask T R) (now : T) : AgentTask T R :=
  { t with
    status := .running
    runCount := t.runCount + 1
    lastRun := some now
    nextRun := some (now + t.intervalSeconds) }

/-- The try block of _run_task; an error stays when a later run succeeds. -/
def AgentTask.settle (t : AgentTask T R) : Except String R → AgentTask T R
  | .ok result => { t with
      result := some result, status := .completed, successCount := t.successCount + 1 }
  | .error e => { t with status := .failed, error := some e }

def AgentTaskStatus.ofOutcome : Except String R → AgentTaskStatus
  | .ok _ => .completed
  | .error _ => .failed

namespace WarmAgentCoordinator

def addTask (c : WarmAgentCoordinator T R) (taskId : String) (taskType : AgentTaskType)
    (description : String) (interval : T) (handler : Bool) (now : T) : WarmAgentCoordinator T R :=
  { c with
    objects := c.objects ++ [{
      taskId := taskId
      taskType := taskType
      description := description
      intervalSeconds := interval
      handler := handler
      nextRun := some now }]
    tasks := c.tasks.put (taskId, c.objects.length) }

def removeTask (c : WarmAgentCoordinator T R) (taskId : String) : Bool × WarmAgentCoordinator T R :=
  if (c.tasks.get taskId).isSome then (true, { c with tasks := c.tasks.erase taskId }) else (false, c)

/-- _run_task up to the call of the handler. -/
def start (c : WarmAgentCoordinator T R) (task : Nat) (now : T) : WarmAgentCoordinator T R :=
  { c with objects := c.objects.modify task (·.start now), awaited := c.awaited ++ [task] }

/-- More than a thousand entries are cut down to the last five hundred. -/
def recordExecution (history : List (Execution T)) (e : Execution T) : List (Execution T) :=
  PyList.pushTrim 1000 500 history e

end WarmAgentCoordinator

/-- The loop comes to a task object. -/
structure Check (T : Type) where
  task : Nat
  reading : T
  stamp : T
  deriving DecidableEq, Repr

/-- A handler of a task object has returned or raised. -/
structure Ending (T R : Type) where
  task : Nat
  taskId : String
  outcome : Except String R
  now : T

/-- _run_task from where the handler has returned or raised. -/
def WarmAgentCoordinator.finish (c : WarmAgentCoordinator T R) (e : Ending T R) :
    WarmAgentCoordinator T R :=
  { c with
    objects := c.objects.modify e.task (·.settle e.outcome)
    awaited := c.awaited.erase e.task
    totalExecutions := c.totalExecutions + 1
    totalFailures := if e.outcome.isOk then c.totalFailures else c.totalFailures + 1
    executionHistory := recordExecution c.executionHistory ⟨e.taskId, .ofOutcome e.outcome, e.now⟩ }

def Ending.execution (e : Ending T R) : Execution T := ⟨e.taskId, .ofOutcome e.outcome, e.now⟩

namespace WarmAgentCoordinator

def checked (c : WarmAgentCoordinator T R) : CoordinatorEvent T R → Option (Check T)
  | .check taskId reading stamp => (c.tasks.get taskId).map fun e => ⟨e.2, reading, stamp⟩
  | _ => none

/-- task.is_due and task.handler -/
def runs (c : WarmAgentCoordinator T R) (k : Check T) : Bool :=
  c.objects[k.task]?.any fun t => t.isDue k.reading && t.handler

def started (c : WarmAgentCoordinator T R) (e : CoordinatorEvent T R) : Option (Check T) :=
  (c.checked e).filter c.runs

def ended (c : WarmAgentCoordinator T R) : CoordinatorEvent T R → Option (Ending T R)
  | .finish task outcome now =>
    if task ∈ c.awaited then c.objects[task]?.map fun t => ⟨task, t.taskId, outcome, now⟩ else none
  | _ => none

def cancelled (c : WarmAgentCoordinator T R) : CoordinatorEvent T R → Option Nat
  | .cancel task => if task ∈ c.awaited then some task else none
  | _ => none

/-- A handler that is cancelled leaves its task as it is: neither CancelledError nor the end
of the loop is an Exception that _run_task knows. -/
def step (c : WarmAgentCoordinator T R) (e : CoordinatorEvent T R) : WarmAgentCoordinator T R :=
  match e with
  | .add taskId taskType description interval handler now =>
      c.addTask taskId taskType description interval handler now
  | .remove taskId => (c.removeTask taskId).2
  | .check _ _ _ => (c.started e).elim c fun k => c.start k.task k.stamp
  | .finish _ _ _ => (c.ended e).elim c c.finish
  | .cancel task => { c with awaited := c.awaited.erase task }

/-- What happens along a run. -/
def trace {α : Type} (f : WarmAgentCoordinator T R → CoordinatorEvent T R → Option α)
    (c : WarmAgentCoordinator T R) : List (CoordinatorEvent T R) → List α
  | [] => []
  | e :: es => (f c e).toList ++ trace f (c.step e) es

def run (c : WarmAgentCoordinator T R) (es : List (CoordinatorEvent T R)) : WarmAgentCoordinator T R :=
  es.foldl step c

variable (c : WarmAgentCoordinator T R)

omit [AddCommGroup T] [LinearOrder T] in
theorem nextRun_settle (t : AgentTask T R) (outcome : Except String R) :
    (t.settle outcome).nextRun = t.nextRun := by
  cases outcome with
  | ok result => rfl
  | error e => rfl

omit [AddCommGroup T] [LinearOrder T] in
theorem config_settle (t : AgentTask T R) (outcome : Except String R) :
    (t.settle outcome).intervalSeconds = t.intervalSeconds ∧ (t.settle outcome).handler = t.handler := by
  cases outcome with
  | ok result => exact ⟨rfl, rfl⟩
  | error e => exact ⟨rfl, rfl⟩

omit [AddCommGroup T] [LinearOrder T] in
theorem counts_settle (t : AgentTask T R) (outcome : Except String R) :
    (t.settle outcome).runCount = t.runCount ∧
      (t.settle outcome).successCount = t.successCount + if outcome.isOk then 1 else 0 := by
  cases outcome with
  | ok result => exact ⟨rfl, rfl⟩
  | error e => exact ⟨rfl, rfl⟩

/-- A task with a handler that is due again an interval after some time. -/
def Due (c : WarmAgentCoordinator T R) (i : Nat) (interval last : T) : Prop :=
  ∃ t, c.objects[i]? = some t ∧ t.handler = true ∧ t.intervalSeconds = interval ∧
    t.nextRun = some (last + interval)

variable {c} {i : Nat} {interval last : T}

theorem Due.runs_eq [IsOrderedAddMonoid T] (h : Due c i interval last) {k : Check T} (hk : k.task = i) :
    c.runs k = admits interval (some last) k.reading := by
  obtain ⟨t, ht, hhandler, -, hnext⟩ := h
  rw [runs, hk, ht, Option.any_some, hhandler, Bool.and_true, AgentTask.isDue, hnext, admits]
  exact decide_eq_decide.mpr le_sub_iff_add_le'.symm

/-- When the next run is reckoned from, after an event. -/
def lastStart (c : WarmAgentCoordinator T R) (i : Nat) (last : T) (e : CoordinatorEvent T R) : T :=
  match c.started e with
  | some k => if k.task = i then k.stamp else last
  | none => last

theorem Due.step (h : Due c i interval last) (e : CoordinatorEvent T R) :
    Due (c.step e) i interval (c.lastStart i last e) := by
  obtain ⟨t, ht, hhandler, hinterval, hnext⟩ := h
  cases e with
  | add taskId taskType description interval' handler now =>
      exact ⟨t, (List.getElem?_append_left (List.getElem?_eq_some_iff.mp ht).1).trans ht, hhandler,
        hinterval, hnext⟩
  | remove taskId =>
      refine ⟨t, ?_, hhandler, hinterval, hnext⟩
      change (c.removeTask taskId).2.objects[i]? = some t
      rw [removeTask]
      split
      · exact ht
      · exact ht
  | check taskId reading stamp =>
      rw [WarmAgentCoordinator.step, lastStart]
      cases c.started (.check taskId reading stamp) with
      | none => exact ⟨t, ht, hhandler, hinterval, hnext⟩
      | some k =>
          dsimp only [Option.elim_some]
          by_cases hk : k.task = i
          · refine ⟨t.start k.stamp, ?_, hhandler, hinterval, ?_⟩
            · rw [start, hk, List.getElem?_modify_eq, ht]
              rfl
            · rw [if_pos hk, ← hinterval]
              rfl
          · refine ⟨t, ?_, hhandler, hinterval, by rwa [if_neg hk]⟩
            exact (List.getElem?_modify_ne _ _ hk).trans ht
  | finish task outcome now =>
      rw [WarmAgentCoordinator.step]
      cases c.ended (.finish task outcome now) with
      | none => exact ⟨t, ht, hhandler, hinterval, hnext⟩
      | some n =>
          dsimp only [Option.elim_some]
          by_cases hn : n.task = i
          · obtain ⟨hinterval', hhandler'⟩ := config_settle t n.outcome
            refine ⟨t.settle n.outcome, ?_, hhandler'.trans hhandler, hinterval'.trans hinterval,
              (nextRun_settle t n.outcome).trans hnext⟩
            rw [finish, hn, List.getElem?_modify_eq, ht]
            rfl
          · refine ⟨t, ?_, hhandler, hinterval, hnext⟩
            exact (List.getElem?_modify_ne _ _ hn).trans ht
  | cancel task => exact ⟨t, ht, hhandler, hinterval, hnext⟩

/-- What is started of a task are those of the loop's visits that come an interval or more
after the last one that was. -/
theorem Due.starts_eq [IsOrderedAddMonoid T] (h : Due c i interval last)
    (es : List (CoordinatorEvent T R)) :
    (trace started c es).filter (fun k => k.task = i) =
      debounce interval Check.reading Check.stamp (some last)
        ((trace checked c es).filter fun k => k.task = i) := by
  induction es generalizing c last with
  | nil => rfl
  | cons e es ih =>
      have hrest := ih (h.step e)
      rw [trace, trace, List.filter_append, List.filter_append, hrest, lastStart, started]
      cases c.checked e with
      | none => rfl
      | some k =>
          rw [Option.filter_some]
          by_cases hk : k.task = i
          · rw [h.runs_eq hk, Option.toList_some, List.filter_singleton, decide_eq_true hk,
              cond_true, List.singleton_append, debounce]
            split
            case isTrue => simp [hk]
            case isFalse => rfl
          · cases hruns : c.runs k <;> simp [hk]

omit [LinearOrder T] in
/-- A task that has just been added is due at once. -/
theorem due_addTask (c : WarmAgentCoordinator T R) (taskId : String) (taskType : AgentTaskType)
    (description : String) (interval now : T) :
    Due (c.addTask taskId taskType description interval true now) c.objects.length interval
      (now - interval) :=
  ⟨_, List.getElem?_concat_length, rfl, rfl, congrArg some (sub_add_cancel now interval).symm⟩

end WarmAgentCoordinator

open WarmAgentCoordinator in
/-- Whatever else happens, and although ids are given away and removed and handlers fail,
overlap and are cancelled: of the visits that the loop pays to a task exactly those start it that
come when the interval since its last start is over, the first of all as soon as the task is
there; so its starts are an interval apart. -/
theorem starts_spaced [IsOrderedAddMonoid T] (c : WarmAgentCoordinator T R) (taskId : String)
    (taskType : AgentTaskType) (description : String) (interval now : T)
    (es : List (CoordinatorEvent T R))
    (hclock : InOrder Check.reading Check.stamp
      (trace checked (c.addTask taskId taskType description interval true now) es)) :
    (trace started (c.addTask taskId taskType description interval true now) es).filter
        (fun k => k.task = c.objects.length) =
      debounce interval Check.reading Check.stamp (some (now - interval))
        ((trace checked (c.addTask taskId taskType description interval true now) es).filter
          fun k => k.task = c.objects.length) ∧
    Spaced interval Check.stamp
      ((trace started (c.addTask taskId taskType description interval true now) es).filter
        fun k => k.task = c.objects.length) := by
  have hstarts := (due_addTask c taskId taskType description interval now).starts_eq es
  refine ⟨hstarts, ?_⟩
  rw [hstarts]
  exact debounce_spaced (hclock.sublist List.filter_sublist)

def health : WarmAgentCoordinator Int Unit :=
  ({} : WarmAgentCoordinator Int Unit).addTask "health-monitor" .healthCheck "" 60 true 0

/-- The health task comes due once a minute. -/
def visits : List (CoordinatorEvent Int Unit) :=
  [.check "health-monitor" 5 6, .finish 0 (.ok ()) 7, .check "health-monitor" 65 65,
    .check "health-monitor" 70 71]

theorem starts_spaced_health :
    WarmAgentCoordinator.trace WarmAgentCoordinator.started health visits = [⟨0, 5, 6⟩, ⟨0, 70, 71⟩] ∧
      (((WarmAgentCoordinator.trace WarmAgentCoordinator.started health visits).filter
          fun k => k.task = 0) =
        debounce 60 Check.reading Check.stamp (some (0 - 60))
          ((WarmAgentCoordinator.trace WarmAgentCoordinator.checked health visits).filter
            fun k => k.task = 0) ∧
      Spaced 60 Check.stamp ((WarmAgentCoordinator.trace WarmAgentCoordinator.started health
        visits).filter fun k => k.task = 0)) :=
  ⟨by decide, starts_spaced ({} : WarmAgentCoordinator Int Unit) "health-monitor" .healthCheck "" 60 0
    visits ⟨by decide, by decide⟩⟩

/-- What a coordinator has counted, against what has been started, has ended and has been
cancelled of its tasks. -/
structure Accounts (c : WarmAgentCoordinator T R) (starts : List (Check T)) (ends : List (Ending T R))
    (cancels : List Nat) : Prop where
  executions : c.totalExecutions = ends.length
  failures : c.totalFailures = ends.countP fun e => !e.outcome.isOk
  history : c.executionHistory = (ends.map Ending.execution).drop
    (ends.length - PyList.kept 1000 500 ends.length)
  runCount : ∀ i t, c.objects[i]? = some t → t.runCount = starts.countP fun k => k.task = i
  successCount : ∀ i t, c.objects[i]? = some t →
    t.successCount = ends.countP fun e => e.task = i ∧ e.outcome.isOk
  awaited : ∀ i, starts.countP (fun k => k.task = i) =
    (ends.countP fun e => e.task = i) + cancels.count i + c.awaited.count i

namespace Accounts

omit [AddCommGroup T] [LinearOrder T] in
theorem fresh : Accounts ({} : WarmAgentCoordinator T R) [] [] [] where
  executions := rfl
  failures := rfl
  history := rfl
  runCount i t h := by cases h
  successCount i t h := by cases h
  awaited i := rfl

variable {c : WarmAgentCoordinator T R} {starts : List (Check T)} {ends : List (Ending T R)}
  {cancels : List Nat}

omit [AddCommGroup T] [LinearOrder T] in
/-- A new task has not been started yet. -/
theorem addTask (h : Accounts c starts ends cancels) (hstarts : ∀ k ∈ starts, k.task < c.objects.length)
    (taskId : String) (taskType : AgentTaskType) (description : String) (interval : T)
    (handler : Bool) (now : T) :
    Accounts (c.addTask taskId taskType description interval handler now) starts ends cancels := by
  have hnone : starts.countP (fun k => k.task = c.objects.length) = 0 := by
    rw [List.countP_eq_zero]
    intro k hk
    simpa using (hstarts k hk).ne
  have hends : ends.countP (fun e => e.task = c.objects.length) = 0 := by
    have hawaited := h.awaited c.objects.length
    omega
  have hcases : ∀ {i t}, (c.addTask taskId taskType description interval handler now).objects[i]? =
      some t → c.objects[i]? = some t ∨ i = c.objects.length ∧ t.runCount = 0 ∧ t.successCount = 0 := by
    intro i t ht
    rw [WarmAgentCoordinator.addTask, List.getElem?_append] at ht
    split at ht
    case isTrue => exact Or.inl ht
    case isFalse hi =>
      obtain ⟨hlt, rfl⟩ := List.getElem?_eq_some_iff.mp ht
      rw [List.length_singleton] at hlt
      refine Or.inr ⟨by omega, ?_⟩
      simp
  refine { h with runCount := fun i t ht => ?_, successCount := fun i t ht => ?_ }
  · rcases hcases ht with ht | ⟨rfl, hrun, -⟩
    · exact h.runCount i t ht
    · rw [hrun, hnone]
  · rcases hcases ht with ht | ⟨rfl, -, hsuccess⟩
    · exact h.successCount i t ht
    · have hle := List.countP_mono_left (p := fun e : Ending T R =>
        decide (e.task = c.objects.length ∧ e.outcome.isOk))
        (q := fun e => decide (e.task = c.objects.length)) (l := ends) fun e _ he => by
          simp only [decide_eq_true_eq] at he ⊢
          exact he.1
      omega

omit [AddCommGroup T] [LinearOrder T] in
/-- The object of a task after one of them has changed. -/
theorem getElem?_modify_cases {l : List (AgentTask T R)} {j i : Nat}
    {f : AgentTask T R → AgentTask T R} {t : AgentTask T R} (h : (l.modify j f)[i]? = some t) :
    (∃ t', l[i]? = some t' ∧ j = i ∧ t = f t') ∨ (l[i]? = some t ∧ j ≠ i) := by
  by_cases hj : j = i
  · rw [hj, List.getElem?_modify_eq] at h
    obtain ⟨t', ht', rfl⟩ := Option.map_eq_some_iff.mp h
    exact Or.inl ⟨t', ht', hj, rfl⟩
  · rw [List.getElem?_modify_ne _ _ hj] at h
    exact Or.inr ⟨h, hj⟩

omit [LinearOrder T] in
theorem start (h : Accounts c starts ends cancels) (k : Check T) :
    Accounts (c.start k.task k.stamp) (starts ++ [k]) ends cancels where
  executions := h.executions
  failures := h.failures
  history := h.history
  runCount i t ht := by
    rw [List.countP_append, List.countP_singleton]
    rcases getElem?_modify_cases ht with ⟨t', ht', hi, rfl⟩ | ⟨ht', hi⟩
    · rw [if_pos (by simpa using hi), ← h.runCount i t' ht']
      rfl
    · rw [if_neg (by simpa using hi), ← h.runCount i t ht', Nat.add_zero]
  successCount i t ht := by
    rcases getElem?_modify_cases ht with ⟨t', ht', -, rfl⟩ | ⟨ht', -⟩
    · exact h.successCount i t' ht'
    · exact h.successCount i t ht'
  awaited i := by
    have hcount : (c.start k.task k.stamp).awaited.count i =
        c.awaited.count i + if k.task = i then 1 else 0 := by
      rw [WarmAgentCoordinator.start, List.count_append, List.count_singleton]
      simp
    rw [List.countP_append, List.countP_singleton, hcount, h.awaited]
    by_cases hi : k.task = i
    · simp [hi]
      omega
    · simp [hi]

omit [AddCommGroup T] [LinearOrder T] in
theorem finish (h : Accounts c starts ends cancels) {n : Ending T R} (hawaited : n.task ∈ c.awaited) :
    Accounts (c.finish n) starts (ends ++ [n]) cancels where
  executions := by
    rw [List.length_append, ← h.executions]
    rfl
  failures := by
    rw [List.countP_append, List.countP_singleton, ← h.failures, WarmAgentCoordinator.finish]
    cases n.outcome <;> rfl
  history := by
    have hlength : (ends.map Ending.execution).length = ends.length := List.length_map _
    have htrim := @PyList.pushTrim_drop _ 1000 500 (by decide) (by decide)
      (ends.map Ending.execution) n.execution
    rw [hlength, ← h.history] at htrim
    rw [List.map_append, List.length_append]
    exact htrim
  runCount i t ht := by
    rcases getElem?_modify_cases ht with ⟨t', ht', -, rfl⟩ | ⟨ht', -⟩
    · rw [← h.runCount i t' ht', (WarmAgentCoordinator.counts_settle t' n.outcome).1]
    · exact h.runCount i t ht'
  successCount i t ht := by
    rw [List.countP_append, List.countP_singleton]
    rcases getElem?_modify_cases ht with ⟨t', ht', hi, rfl⟩ | ⟨ht', hi⟩
    · rw [← h.successCount i t' ht', (WarmAgentCoordinator.counts_settle t' n.outcome).2]
      simp [hi]
    · rw [← h.successCount i t ht']
      simp [hi]
  awaited i := by
    have hpos := List.count_pos_iff.mpr hawaited
    rw [List.countP_append, List.countP_singleton, h.awaited, WarmAgentCoordinator.finish,
      List.count_erase]
    by_cases hi : n.task = i
    · subst hi
      simp
      omega
    · simp [hi]

omit [AddCommGroup T] [LinearOrder T] in
theorem cancel (h : Accounts c starts ends cancels) {task : Nat} (hawaited : task ∈ c.awaited) :
    Accounts { c with awaited := c.awaited.erase task } starts ends (cancels ++ [task]) where
  executions := h.executions
  failures := h.failures
  history := h.history
  runCount := h.runCount
  successCount := h.successCount
  awaited i := by
    rw [h.awaited, List.count_append, List.count_singleton, List.count_erase]
    have hpos := List.count_pos_iff.mpr hawaited
    by_cases hi : task = i
    · subst hi
      simp
      omega
    · simp [hi]

end Accounts

namespace WarmAgentCoordinator

variable {c : WarmAgentCoordinator T R} {e : CoordinatorEvent T R}

omit [AddCommGroup T] in
theorem lt_of_started {k : Check T} (h : c.started e = some k) : k.task < c.objects.length := by
  obtain ⟨-, hruns⟩ := Option.filter_eq_some_iff.mp h
  rw [runs, Option.any_eq_true] at hruns
  obtain ⟨t, ht, -⟩ := hruns
  exact (List.getElem?_eq_some_iff.mp ht).1

omit [AddCommGroup T] [LinearOrder T] in
theorem awaited_of_ended {n : Ending T R} (h : c.ended e = some n) : n.task ∈ c.awaited := by
  rw [ended.eq_def] at h
  split at h
  case h_1 =>
    split at h
    case isTrue hmem =>
      obtain ⟨t, -, rfl⟩ := Option.map_eq_some_iff.mp h
      exact hmem
    case isFalse => cases h
  case h_2 => cases h

theorem length_objects_step : c.objects.length ≤ (c.step e).objects.length := by
  cases e with
  | add taskId taskType description interval handler now =>
      exact (List.length_append ▸ Nat.le_add_right _ _)
  | remove taskId =>
      change _ ≤ (c.removeTask taskId).2.objects.length
      rw [removeTask]
      split
      · exact le_rfl
      · exact le_rfl
  | check taskId reading stamp =>
      rw [step]
      cases c.started _ with
      | none => exact le_rfl
      | some k => exact (List.length_modify _ _ _).ge
  | finish task outcome now =>
      rw [step]
      cases c.ended _ with
      | none => exact le_rfl
      | some n => exact (List.length_modify _ _ _).ge
  | cancel task => exact le_rfl

end WarmAgentCoordinator

omit [AddCommGroup T] [LinearOrder T] in
theorem Accounts.removeTask {c : WarmAgentCoordinator T R} {starts : List (Check T)}
    {ends : List (Ending T R)} {cancels : List Nat} (h : Accounts c starts ends cancels)
    (taskId : String) : Accounts (c.removeTask taskId).2 starts ends cancels := by
  rw [WarmAgentCoordinator.removeTask]
  split
  · exact ⟨h.executions, h.failures, h.history, h.runCount, h.successCount, h.awaited⟩
  · exact h

/-- Every event keeps the accounts. -/
theorem Accounts.step {c : WarmAgentCoordinator T R} {starts : List (Check T)}
    {ends : List (Ending T R)} {cancels : List Nat} (h : Accounts c starts ends cancels)
    (hstarts : ∀ k ∈ starts, k.task < c.objects.length) (e : CoordinatorEvent T R) :
    Accounts (c.step e) (starts ++ (c.started e).toList) (ends ++ (c.ended e).toList)
      (cancels ++ (c.cancelled e).toList) := by
  cases e with
  | add taskId taskType description interval handler now =>
      have hadd := h.addTask hstarts taskId taskType description interval handler now
      rw [← List.append_nil starts, ← List.append_nil ends, ← List.append_nil cancels] at hadd
      exact hadd
  | remove taskId =>
      have hremove := h.removeTask taskId
      rw [← List.append_nil starts, ← List.append_nil ends, ← List.append_nil cancels] at hremove
      exact hremove
  | check taskId reading stamp =>
      have hothers : Accounts (c.step (.check taskId reading stamp))
          (starts ++ (c.started (.check taskId reading stamp)).toList) ends cancels := by
        rw [WarmAgentCoordinator.step]
        cases c.started (.check taskId reading stamp) with
        | none => rwa [Option.toList_none, List.append_nil]
        | some k => exact h.start k
      rw [← List.append_nil ends, ← List.append_nil cancels] at hothers
      exact hothers
  | finish task outcome now =>
      have hothers : Accounts (c.step (.finish task outcome now)) starts
          (ends ++ (c.ended (.finish task outcome now)).toList) cancels := by
        rw [WarmAgentCoordinator.step]
        cases hended : c.ended (.finish task outcome now) with
        | none => rwa [Option.toList_none, List.append_nil]
        | some n => exact h.finish (WarmAgentCoordinator.awaited_of_ended hended)
      rw [← List.append_nil starts, ← List.append_nil cancels] at hothers
      exact hothers
  | cancel task =>
      have hothers : Accounts (c.step (.cancel task)) starts ends
          (cancels ++ (c.cancelled (.cancel task)).toList) := by
        rw [WarmAgentCoordinator.step, WarmAgentCoordinator.cancelled]
        split
        case isTrue hmem => exact h.cancel hmem
        case isFalse hmem =>
          rw [List.erase_of_not_mem hmem, Option.toList_none, List.append_nil]
          exact h
      rw [← List.append_nil starts, ← List.append_nil ends] at hothers
      exact hothers

theorem Accounts.run {c : WarmAgentCoordinator T R} {starts : List (Check T)}
    {ends : List (Ending T R)} {cancels : List Nat} (h : Accounts c starts ends cancels)
    (hstarts : ∀ k ∈ starts, k.task < c.objects.length) (es : List (CoordinatorEvent T R)) :
    Accounts (c.run es) (starts ++ c.trace WarmAgentCoordinator.started es)
      (ends ++ c.trace WarmAgentCoordinator.ended es)
      (cancels ++ c.trace WarmAgentCoordinator.cancelled es) := by
  induction es generalizing c starts ends cancels with
  | nil =>
      rw [← List.append_nil starts, ← List.append_nil ends, ← List.append_nil cancels] at h
      exact h
  | cons e es ih =>
      have hafter : ∀ k ∈ starts ++ (c.started e).toList, k.task < (c.step e).objects.length := by
        intro k hk
        refine Nat.lt_of_lt_of_le ?_ WarmAgentCoordinator.length_objects_step
        rcases List.mem_append.mp hk with hk | hk
        · exact hstarts k hk
        · exact WarmAgentCoordinator.lt_of_started (Option.mem_toList.mp hk)
      have hrest := ih (h.step hstarts e) hafter
      rw [List.append_assoc, List.append_assoc, List.append_assoc] at hrest
      exact hrest

/-- After any run, whichever tasks were added, replaced and removed on the way and whatever
became of their handlers: every start of a task has succeeded, failed, been cancelled or is still
awaited, the counters say how many, and the history is the end of all that has been executed. -/
theorem accounts_of_events (es : List (CoordinatorEvent T R)) :
    Accounts (({} : WarmAgentCoordinator T R).run es)
        (WarmAgentCoordinator.trace WarmAgentCoordinator.started {} es)
        (WarmAgentCoordinator.trace WarmAgentCoordinator.ended {} es)
        (WarmAgentCoordinator.trace WarmAgentCoordinator.cancelled {} es) ∧
      (({} : WarmAgentCoordinator T R).run es).executionHistory.length =
        PyList.kept 1000 500 (({} : WarmAgentCoordinator T R).run es).totalExecutions := by
  have hfresh : ∀ k ∈ ([] : List (Check T)), k.task < ({} : WarmAgentCoordinator T R).objects.length :=
    fun k hk => absurd hk List.not_mem_nil
  have hrun := Accounts.fresh.run hfresh es
  rw [List.nil_append, List.nil_append, List.nil_append] at hrun
  refine ⟨hrun, ?_⟩
  have hkept := @PyList.kept_le 1000 500 (by decide)
    (({} : WarmAgentCoordinator T R).run es).totalExecutions
  rw [hrun.history, List.length_drop, List.length_map, ← hrun.executions]
  omega

end Prodinamik.Agents
