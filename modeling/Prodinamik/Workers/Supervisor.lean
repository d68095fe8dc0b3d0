import Mathlib.Data.List.AList
import Mathlib.Data.Rat.Defs

namespace Prodinamik.Workers

inductive WorkerStatus
  | pending
  | running
  | completed
  | failed
  | cancelled
  | crashed
  deriving DecidableEq, Repr

structure WorkerInfo where
  workerId : String
  taskId : String
  status : WorkerStatus := .pending
  startedAt : Option Int := none
  completedAt : Option Int := none
  goal : String := ""
  error : Option String := none
  progress : Rat := 0
  deriving DecidableEq, Repr

/-- Where a _run_worker stands: it has not begun, or it waits for the callback
on_task_received, for the execution, for the callback about its result, or for
the delay before a restart. From its beginning on it has a record. -/
inductive Phase
  | created
  | receiving (record : Nat)
  | executing (record : Nat)
  | notifying (record : Nat)
  | restarting (record : Nat)
  | done
  deriving DecidableEq, Repr

/-- An asyncio task that runs _run_worker. The task that spawn_worker made and
those that restarts made after it have one origin, which nothing reads. -/
structure Coroutine where
  workerId : String
  goal : String
  origin : Nat
  phase : Phase := .created
  cancelRequested : Bool := false
  deriving DecidableEq, Repr

structure SupervisorConfig where
  maxWorkers : Nat := 3
  enableAutoRecovery : Bool := true
  deriving DecidableEq, Repr

/-- The dicts of the supervisor hold records and tasks by their numbers. A call
of stop waits for the tasks it has found. -/
structure AgentSupervisor where
  config : SupervisorConfig := {}
  records : List WorkerInfo := []
  workers : AList (fun _ : String => Nat) := ∅
  workerTasks : AList (fun _ : String => Nat) := ∅
  coroutines : List Coroutine := []
  running : Bool := true
  stopping : List (List Nat) := []
  stopped : Bool := false

/-- How the await of a coroutine ends. A callback or an execution may catch the
CancelledError of a cancellation and return or raise something else. -/
inductive Outcome
  | returns (success : Bool) (error : Option String)
  | raises (error : String)
  | cancelled
  deriving DecidableEq, Repr

namespace AgentSupervisor

def workerIdOf (taskId : String) (poolSize : Nat) : String :=
  String.ofList ("w-".toList ++ taskId.toList.take 8 ++ '-' :: Nat.toDigits 10 poolSize)

def poolSize (s : AgentSupervisor) : Nat := s.workers.keys.length

def setRecord (s : AgentSupervisor) (r : Nat) (f : WorkerInfo → WorkerInfo) : AgentSupervisor :=
  { s with records := s.records.modify r f }

/-- A coroutine that goes on has seen what cancelled it, if anything did. -/
def setPhase (s : AgentSupervisor) (c : Nat) (phase : Phase) : AgentSupervisor :=
  { s with
    coroutines := s.coroutines.modify c fun k =>
      { k with phase := phase, cancelRequested := false } }

/-- The semaphore is taken and given back within the call, so it holds up a
call only if it has no places at all. -/
def spawnWorker (s : AgentSupervisor) (taskId goal : String) : Option (String × AgentSupervisor) :=
  if s.config.maxWorkers = 0 then none
  else
    let workerId := workerIdOf taskId s.poolSize
    some (workerId,
      { s with
        records := s.records ++ [{ workerId := workerId, taskId := taskId, goal := goal }]
        workers := s.workers.insert workerId s.records.length
        workerTasks := s.workerTasks.insert workerId s.coroutines.length
        coroutines := s.coroutines ++
          [{ workerId := workerId, goal := goal, origin := s.coroutines.length }] })

/-- A task that is cancelled before it begins never runs. -/
def begin (s : AgentSupervisor) (c : Nat) (k : Coroutine) (now : Int) : AgentSupervisor :=
  if k.cancelRequested then s.setPhase c .done
  else
    match s.workers.lookup k.workerId with
    | none => s.setPhase c .done
    | some r =>
        (s.setRecord r fun w => { w with status := .running, startedAt := some now }).setPhase c
          (.receiving r)

def finish (s : AgentSupervisor) (c r : Nat) (now : Int) : AgentSupervisor :=
  (s.setRecord r fun w => { w with completedAt := some now }).setPhase c .done

def cancelled (s : AgentSupervisor) (c r : Nat) (now : Int) : AgentSupervisor :=
  (s.setRecord r fun w => { w with status := .cancelled }).finish c r now

def crash (s : AgentSupervisor) (c r : Nat) (error : String) (now : Int) : AgentSupervisor :=
  let s := s.setRecord r fun w => { w with status := .crashed, error := some error }
  if s.config.enableAutoRecovery then s.setPhase c (.restarting r) else s.finish c r now

/-- The delay is over: another task runs the worker. -/
def restart (s : AgentSupervisor) (c r : Nat) (k : Coroutine) (now : Int) : AgentSupervisor :=
  let s := s.finish c r now
  { s with
    coroutines := s.coroutines ++
      [{ workerId := k.workerId, goal := k.goal, origin := k.origin }] }

/-- The end of an await other than the delay, by what it waits for. -/
def proceed (s : AgentSupervisor) (c r : Nat) (phase : Phase) (o : Outcome) (now : Int) :
    AgentSupervisor :=
  match o with
  | .raises error => s.crash c r error now
  | .cancelled => s.cancelled c r now
  | .returns success error =>
    match phase with
    | .receiving _ => s.setPhase c (.executing r)
    | .executing _ =>
        (s.setRecord r fun w =>
          { w with
            status := if success then .completed else .failed
            progress := 1
            error := error }).setPhase c (.notifying r)
    | _ => s.finish c r now

/-- One coroutine goes on until it waits again. -/
def resume (s : AgentSupervisor) (c : Nat) (o : Outcome) (now : Int) : AgentSupervisor :=
  match s.coroutines[c]? with
  | none => s
  | some k =>
    match k.phase with
    | .created => s.begin c k now
    | .receiving r => s.proceed c r (.receiving r) o now
    | .executing r => s.proceed c r (.executing r) o now
    | .notifying r => s.proceed c r (.notifying r) o now
    | .restarting r => if k.cancelRequested then s.finish c r now else s.restart c r k now
    | .done => s

def cancelTask (s : AgentSupervisor) (c : Nat) : AgentSupervisor :=
  { s with
    coroutines := s.coroutines.modify c fun k =>
      if k.phase = .done then k else { k with cancelRequested := true } }

/-- cancel_worker returns False where the result here is none. -/
def cancelWorker (s : AgentSupervisor) (workerId : String) : Option AgentSupervisor :=
  (s.workerTasks.lookup workerId).map fun c =>
    let s := s.cancelTask c
    match s.workers.lookup workerId with
    | none => s
    | some r => s.setRecord r fun w => { w with status := .cancelled }

/-- stop up to the await of the tasks it has cancelled. -/
def stop (s : AgentSupervisor) : AgentSupervisor :=
  let s := { s with
    running := false
    stopping := s.stopping ++ [s.workerTasks.entries.map fun e : (_ : String) × Nat => e.2] }
  s.workerTasks.keys.foldl (fun s workerId => (s.cancelWorker workerId).getD s) s

def finished (s : AgentSupervisor) (c : Nat) : Bool :=
  match s.coroutines[c]? with
  | none => true
  | some k => k.phase = .done

/-- The end of one of the calls of stop, when its tasks have ended. -/
def stopReturns (s : AgentSupervisor) (i : Nat) : AgentSupervisor :=
  match s.stopping[i]? with
  | none => s
  | some tasks =>
      if tasks.all s.finished then
        { s with
          workerTasks := if tasks = [] then s.workerTasks else ∅
          stopping := s.stopping.eraseIdx i
          stopped := true }
      else s

/-- Records of ended workers are kept for a minute; the times are in seconds. -/
def stale (now : Int) (w : WorkerInfo) : Bool :=
  (w.status = .completed ∨ w.status = .failed ∨ w.status = .cancelled) ∧
    ∃ t ∈ w.completedAt, 60 < now - t

def cleanup (s : AgentSupervisor) (now : Int) : AgentSupervisor :=
  let gone := (s.workers.entries.filter fun e => (s.records[e.2]?).any (stale now)).map Sigma.fst
  { s with
    workers := gone.foldl (fun workers id => workers.erase id) s.workers
    workerTasks := gone.foldl (fun tasks id => tasks.erase id) s.workerTasks }

inductive Event
  | spawnWorker (taskId goal : String)
  | resume (c : Nat) (o : Outcome) (now : Int)
  | cancelWorker (workerId : String)
  | cleanup (now : Int)
  | stop
  | stopReturns (i : Nat)
  deriving DecidableEq, Repr

def step (s : AgentSupervisor) : Event → AgentSupervisor
  | .spawnWorker taskId goal => ((s.spawnWorker taskId goal).map Prod.snd).getD s
  | .resume c o now => s.resume c o now
  | .cancelWorker workerId => (s.cancelWorker workerId).getD s
  | .cleanup now => s.cleanup now
  | .stop => s.stop
  | .stopReturns i => s.stopReturns i

end AgentSupervisor

end Prodinamik.Workers
