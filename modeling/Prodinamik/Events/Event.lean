import Mathlib.Data.Rat.Defs
import Mathlib.Data.String.Basic

namespace Prodinamik.Events

inductive EventType
  | stateTransition
  | validation
  | validationDetail
  | adapterCall
  | adapterResponse
  | error
  | userAction
  | weeklySummary
  | degradationChange
  | invariantViolation
  deriving DecidableEq, Repr

namespace EventType

def value : EventType → String
  | stateTransition => "state_transition"
  | validation => "validation"
  | validationDetail => "validation_detail"
  | adapterCall => "adapter_call"
  | adapterResponse => "adapter_response"
  | error => "error"
  | userAction => "user_action"
  | weeklySummary => "weekly_summary"
  | degradationChange => "degradation_change"
  | invariantViolation => "invariant_violation"

def all : List EventType :=
  [stateTransition, validation, validationDetail, adapterCall, adapterResponse, error, userAction,
    weeklySummary, degradationChange, invariantViolation]

/-- EventType(value); none is a ValueError. -/
def ofValue (value : String) : Option EventType := all.find? fun t => t.value = value

theorem ofValue_value (t : EventType) : ofValue t.value = some t := by
  cases t with
  | _ => decide +kernel

end EventType

/-- The data of a compaction summary. -/
structure Summary where
  compactedEvents : Nat
  periodStart : String
  periodEnd : String
  totalCost : Rat
  passed : Nat
  failed : Nat
  passRate : Rat
  topValidators : List (String × Rat)
  deriving DecidableEq, Repr

/-- The data dict: the keys the store reads, those of a summary and the others. -/
structure EventData where
  validator : Option String := none
  passed : Option Bool := none
  summary : Option Summary := none
  others : List (String × String) := []
  deriving DecidableEq, Repr

namespace EventData

/-- data.get("passed", True) as a condition; the count of a summary is one too. -/
def passedOrTrue (d : EventData) : Bool :=
  match d.summary with
  | some s => s.passed ≠ 0
  | none => d.passed.getD true

/-- data.get("passed") == value; True is 1 and False is 0. -/
def passedIs (d : EventData) (value : Bool) : Bool :=
  match d.summary with
  | some s => s.passed = value.toNat
  | none => d.passed = some value

end EventData

structure Event where
  sequence : Nat := 0
  runSlug : String
  timestamp : String
  eventType : String
  data : EventData := {}
  parentId : Option Int := none
  traceId : Option String := none
  hopCount : Int := 0
  costUsd : Rat := 0
  validatorTier : Int := 1
  deriving DecidableEq, Repr

/-- What datetime.fromisoformat makes of a text, the time in microseconds. A
time with a zone cannot be compared with datetime.now(). -/
inductive IsoTime
  | naive (microseconds : Int)
  | aware
  deriving DecidableEq, Repr

/-- How long events are kept, in microseconds; none is timedelta.max. -/
structure EventRetentionPolicy where
  fromisoformat : String → Option IsoTime
  retention : EventType → Option Int

namespace EventRetentionPolicy

def days (n : Int) : Int := n * 86400 * 1000000

/-- RETENTION -/
def defaultRetention : EventType → Option Int
  | .stateTransition => none
  | .validation => some (days 90)
  | .validationDetail => some (days 30)
  | .adapterCall => some (days 30)
  | .adapterResponse => some (days 7)
  | .error => some (days 365)
  | .userAction => some (days 365)
  | .weeklySummary => none
  | .degradationChange => some (days 180)
  | .invariantViolation => some (days 365)

def compactionAge : Int := days 30

def compactionBatch : Nat := 10

def shouldPurge (p : EventRetentionPolicy) (e : Event) (now : Int) : Except String Bool :=
  match EventType.ofValue e.eventType with
  | none => .error ("'" ++ e.eventType ++ "' is not a valid EventType")
  | some type =>
    match p.retention type with
    | none => .ok false
    | some ttl =>
      match p.fromisoformat e.timestamp with
      | none => .error ("Invalid isoformat string: '" ++ e.timestamp ++ "'")
      | some .aware => .error "can't subtract offset-naive and offset-aware datetimes"
      | some (.naive time) => .ok (ttl < now - time)

end EventRetentionPolicy

end Prodinamik.Events
