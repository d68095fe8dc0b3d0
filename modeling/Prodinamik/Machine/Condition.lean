import Prodinamik.Lib.Text
import Prodinamik.Machine.Types

namespace Prodinamik.Machine.Condition

open Lib.Text

def numericOperators : List String := [">=", "<=", ">", "<", "==", "!="]

def compare (op : String) (actual target : Int) : Bool :=
  if op = ">=" then actual ≥ target
  else if op = "<=" then actual ≤ target
  else if op = ">" then actual > target
  else if op = "<" then actual < target
  else if op = "==" then actual = target
  else actual ≠ target

def runtimeField (name : List Char) (rt : RuntimeState) : Option Int :=
  if name = "iterations".toList then some rt.iterationCount
  else if name = "iteration_count".toList then some rt.iterationCount
  else if name = "drift_count".toList then some rt.driftCount
  else if name = "failures".toList then some rt.consecutiveFailures
  else if name = "consecutive_failures".toList then some rt.consecutiveFailures
  else if name = "reentry_count".toList then some rt.reentryCount
  else if name = "total_iterations".toList then some rt.totalIterations
  else none

def flag (name : List Char) (rt : RuntimeState) : Option Bool :=
  if name = "human_approved".toList then some rt.humanApproved
  else if name = "drift_detected".toList then some (rt.driftCount > 0)
  else if name = "consecutive_failures".toList then some (rt.consecutiveFailures > 0)
  else if name = "changes_requested".toList then some rt.changesRequested
  else if name = "manual_unblock".toList then some rt.manualUnblock
  else if name = "project_abandoned".toList then some rt.projectAbandoned
  else if name = "max_iterations_exceeded".toList then some (rt.totalIterations > rt.iterationCount)
  else none

/-- A comparison whose field or number is not known counts as met, and so does
a name that is not a flag. -/
def evaluateSingleCondition (condition : List Char) (rt : RuntimeState) : Bool :=
  let condition := strip condition
  match numericOperators.find? fun op => contains op.toList condition with
  | some op =>
      let parts := splitOnce op.toList condition
      match parseInt (strip parts.2), runtimeField (strip parts.1) rt with
      | some target, some actual => compare op actual target
      | _, _ => true
  | none =>
      let base := if '(' ∈ condition then strip (partition '(' condition).1 else condition
      (flag base rt).getD true

def evaluateCondition (condition : String) (rt : RuntimeState) : Bool :=
  let condition := strip condition.toList
  if contains " OR ".toList condition then
    (split " OR ".toList condition).any fun p => evaluateSingleCondition (strip p) rt
  else if contains " AND ".toList condition then
    (split " AND ".toList condition).all fun p => evaluateSingleCondition (strip p) rt
  else evaluateSingleCondition condition rt

end Prodinamik.Machine.Condition
