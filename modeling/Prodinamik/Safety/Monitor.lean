import Prodinamik.Budget.CostTracker
import Prodinamik.Budget.Degradation
import Prodinamik.Events.Batch
import Prodinamik.Safety.EventBus

namespace Prodinamik.Safety

open Budget Events

/-- What may be given as a state machine; a field is none where the object has no such
attribute. -/
structure Machine where
  className : String
  allStates : Option (List String) := none
  transitions : Option (List (String × List String)) := none
  currentStates : Option (List (String × String)) := none
  iterationCount : Option Int := none
  maxIterations : Option Int := none
  deriving DecidableEq, Repr

/-- What may be given as a run; the drift is an object of its own. -/
structure CheckedRun where
  className : String
  costTracker : Option CostTracker := none
  hardLimit : Option Rat := none
  drift : Option (Option Rat) := none
  deriving DecidableEq, Repr

structure Cache where
  hitRate : Option Rat := none
  deriving DecidableEq, Repr

/-- The components that check_all is given; the bus is the monitor's own where none is given. -/
structure Context (H : Type) where
  sm : Option Machine := none
  run : Option CheckedRun := none
  store : Option EventStore := none
  cache : Option Cache := none
  bus : Option (EventBus H) := none
  deg : Option DegradationLevel := none

/-- The arguments by the names that the checks have for them. -/
structure Arguments (H : Type) extends Context H where
  s : Option String := none
  f : Option String := none
  t : Option String := none

variable {H : Type}

namespace Arguments

/-- The context has no key s, f or t. -/
def ofContext (c : Context H) : Arguments H := { c with }

def given (a : Arguments H) (name : String) : Bool :=
  if name = "sm" then a.sm.isSome
  else if name = "s" then a.s.isSome
  else if name = "f" then a.f.isSome
  else if name = "t" then a.t.isSome
  else if name = "run" then a.run.isSome
  else if name = "store" then a.store.isSome
  else if name = "cache" then a.cache.isSome
  else if name = "bus" then a.bus.isSome
  else name = "deg" && a.deg.isSome

end Arguments

/-- The names in a TypeError. -/
def listed : List String → String
  | [] => ""
  | [a] => "'" ++ a ++ "'"
  | [a, b] => "'" ++ a ++ "' and '" ++ b ++ "'"
  | a :: rest => "'" ++ a ++ "', " ++ rest.foldr (fun b text =>
      if text = "" then "and '" ++ b ++ "'" else "'" ++ b ++ "', " ++ text) ""

def missing (names : List String) : String :=
  "RuntimeSafetyMonitor.<lambda>() missing " ++ toString names.length ++ " required positional " ++
    (if names.length = 1 then "argument: " else "arguments: ") ++ listed names

def noAttribute (className name : String) : String :=
  "'" ++ className ++ "' object has no attribute '" ++ name ++ "'"

/-- An entry of INVARIANTS: the parameters of its check without the keywords, and what the check
makes of arguments that are all given. -/
structure Invariant (H : Type) where
  name : String
  category : String
  severity : String
  action : String
  parameters : List String
  check : Arguments H → Except String Bool

namespace Invariant

/-- lambda sm, s: s in sm.all_states -/
def stateExists : Invariant H where
  name := "state_exists"
  category := "state_machine"
  severity := "CRITICAL"
  action := "pause"
  parameters := ["sm", "s"]
  check a :=
    match a.sm, a.s with
    | some sm, some s =>
      match sm.allStates with
      | none => .error (noAttribute sm.className "all_states")
      | some states => .ok (s ∈ states)
    | _, _ => .ok true

/-- lambda sm, f, t: t in sm.transitions.get(f, []) -/
def validTransition : Invariant H where
  name := "valid_transition"
  category := "state_machine"
  severity := "CRITICAL"
  action := "pause"
  parameters := ["sm", "f", "t"]
  check a :=
    match a.sm, a.f, a.t with
    | some sm, some f, some t =>
      match sm.transitions with
      | none => .error (noAttribute sm.className "transitions")
      | some transitions => .ok (t ∈ (transitions.lookup f).getD [])
    | _, _, _ => .ok true

def noStateLeak : Invariant H where
  name := "no_state_leak"
  category := "state_machine"
  severity := "CRITICAL"
  action := "pause"
  parameters := ["sm"]
  check a :=
    match a.sm with
    | none => .ok true
    | some sm =>
      match sm.currentStates with
      | none => .ok true
      | some [] => .ok true
      | some current =>
        match sm.allStates with
        | none => .error (noAttribute sm.className "all_states")
        | some states => .ok (current.all fun c => c.2 ∈ states)

def monotonicProgress : Invariant H where
  name := "monotonic_progress"
  category := "progress"
  severity := "CRITICAL"
  action := "block"
  parameters := ["sm"]
  check a :=
    match a.sm with
    | none => .ok true
    | some sm =>
      match sm.iterationCount with
      | none => .ok true
      | some count =>
        match sm.maxIterations with
        | none => .error (noAttribute sm.className "max_iterations")
        | some most => .ok (count ≤ most)

def budgetRespected : Invariant H where
  name := "budget_respected"
  category := "resources"
  severity := "FATAL"
  action := "degrade_survival"
  parameters := ["run"]
  check a :=
    match a.run with
    | none => .ok true
    | some run =>
      match run.costTracker with
      | none => .ok true
      | some tracker =>
        match run.hardLimit with
        | none => .error (noAttribute run.className "hard_limit")
        | some limit => .ok (tracker.totalUsd ≤ limit)

def eventCountReasonable : Invariant H where
  name := "event_count_reasonable"
  category := "resources"
  severity := "WARNING"
  action := "compact"
  parameters := ["store"]
  check a :=
    match a.store with
    | none => .ok true
    | some store => .ok (store.eventCount < 10000)

def noOrphanEvents : Invariant H where
  name := "no_orphan_events"
  category := "data_integrity"
  severity := "WARNING"
  action := "compact"
  parameters := ["store"]
  check a :=
    match a.store with
    | none => .ok true
    | some store =>
        .ok (store.index.length = 0 ∨ ((store.index.take 100).all fun n => (store.get n).isSome))

/-- The module does not import DegradationLevel. -/
def cacheFresh : Invariant H where
  name := "cache_fresh"
  category := "data_integrity"
  severity := "WARNING"
  action := "notify"
  parameters := ["cache", "deg"]
  check a :=
    match a.cache with
    | none => .ok true
    | some cache =>
      match cache.hitRate with
      | none => .ok true
      | some _ => .error "name 'DegradationLevel' is not defined"

def driftNotExploding : Invariant H where
  name := "drift_not_exploding"
  category := "drift"
  severity := "CRITICAL"
  action := "escalate"
  parameters := ["run"]
  check a :=
    match a.run with
    | none => .ok true
    | some run =>
      match run.drift with
      | none => .ok true
      | some none => .error (noAttribute "drift" "instant_rate")
      | some (some rate) => .ok (rate < 9 / 10)

def crossProfileNoCycle : Invariant H where
  name := "cross_profile_no_cycle"
  category := "safety"
  severity := "FATAL"
  action := "bus_reset"
  parameters := ["bus"]
  check a :=
    match a.bus with
    | none => .ok true
    | some bus => .ok (!bus.hasCycles)

/-- INVARIANTS, in the order of the dict. -/
def all : List (Invariant H) :=
  [stateExists, validTransition, noStateLeak, monotonicProgress, budgetRespected,
    eventCountReasonable, noOrphanEvents, cacheFresh, driftNotExploding, crossProfileNoCycle]

/-- _call_with_context -/
def callWithContext (i : Invariant H) (c : Context H) : Except String Bool :=
  let a := Arguments.ofContext c
  let absent := i.parameters.filter fun name => !a.given name
  if absent = [] then i.check a else .error (missing absent)

end Invariant

structure InvariantViolation where
  name : String
  category : String
  severity : String
  message : String
  timestamp : String
  resolved : Bool := false
  resolvedAt : Option String := none
  deriving DecidableEq, Repr

structure RuntimeSafetyMonitor where
  violations : List InvariantViolation := []
  checkCount : Nat := 0
  deriving DecidableEq, Repr

/-- What the checks have done so far: the violations, the context with its bus, and the
compactions that were handed to the event loop. -/
structure Checked (H : Type) where
  newViolations : List InvariantViolation := []
  context : Context H
  compactions : Nat := 0

namespace RuntimeSafetyMonitor

/-- _take_action; no event loop is a RuntimeError. -/
def takeAction (loopRunning : Bool) (action : String) (k : Checked H) : Except String (Checked H) :=
  if action = "compact" ∧ k.context.store.isSome then
    if loopRunning then .ok { k with compactions := k.compactions + 1 }
    else .error "no running event loop"
  else if action = "bus_reset" then
    .ok { k with context := { k.context with bus := k.context.bus.map EventBus.clearTraces } }
  else .ok k

def report (k : Checked H) (v : InvariantViolation) : Checked H :=
  { k with newViolations := k.newViolations ++ [v] }

/-- A check that raises is a violation of the monitor's own. -/
def failedCheck (name error timestamp : String) : InvariantViolation where
  name := name
  category := "system"
  severity := "CRITICAL"
  message := "Invariant check '" ++ name ++ "' failed: " ++ error
  timestamp := timestamp

def violationOf (i : Invariant H) (timestamp : String) : InvariantViolation where
  name := i.name
  category := i.category
  severity := i.severity
  message := "Invariant '" ++ i.name ++ "' violated"
  timestamp := timestamp

/-- One turn of the loop in check_all. -/
def checkOne (loopRunning : Bool) (timestamp : String) (k : Checked H) (i : Invariant H) :
    Checked H :=
  match i.callWithContext k.context with
  | .error e => report k (failedCheck i.name e timestamp)
  | .ok true => k
  | .ok false =>
      let k := report k (violationOf i timestamp)
      match takeAction loopRunning i.action k with
      | .error e => report k (failedCheck i.name e timestamp)
      | .ok k => k

def checkAll (m : RuntimeSafetyMonitor) (loopRunning : Bool) (c : Context H) (timestamp : String) :
    RuntimeSafetyMonitor × Checked H :=
  let k := Invariant.all.foldl (checkOne loopRunning timestamp) { context := c }
  ({ violations := m.violations ++ k.newViolations, checkCount := m.checkCount + 1 }, k)

def activeViolations (m : RuntimeSafetyMonitor) : List InvariantViolation :=
  m.violations.filter fun v => !v.resolved

/-- What a violation takes from the score. -/
def weight (v : InvariantViolation) : Rat :=
  if v.severity = "CRITICAL" then 3 / 10 else if v.severity = "WARNING" then 1 / 10 else 0

def healthScore (m : RuntimeSafetyMonitor) : Rat :=
  if (m.activeViolations.filter fun v => v.severity = "FATAL") ≠ [] then 0
  else max 0 (1 - (m.activeViolations.map weight).sum)

end RuntimeSafetyMonitor

end Prodinamik.Safety
