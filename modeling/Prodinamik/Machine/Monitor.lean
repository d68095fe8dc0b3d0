import Mathlib.Logic.Function.Basic
import Prodinamik.Machine.Condition

namespace Prodinamik.Machine

open Lib.Text

/-- The forms of an LTL rule; a condition is kept as it is written. -/
inductive Formula
  | globally (condition : List Char)
  | eventually (condition : List Char)
  | next (condition : List Char)
  | untilRule (a b : List Char)
  | plain (condition : List Char)
  deriving DecidableEq, Repr

namespace Formula

def wrapped (operator expr : List Char) : Bool :=
  operator.isPrefixOf expr && [')'].isSuffixOf expr

/-- expr[2:-1] -/
def inner (expr : List Char) : List Char := (expr.drop 2).dropLast

def ofExpression (expression : String) : Formula :=
  let expr := strip expression.toList
  if wrapped "G(".toList expr then .globally (inner expr)
  else if wrapped "F(".toList expr then .eventually (inner expr)
  else if wrapped "X(".toList expr then .next (inner expr)
  else if contains " U ".toList expr then
    .untilRule (strip (splitOnce " U ".toList expr).1) (strip (splitOnce " U ".toList expr).2)
  else .plain expr

end Formula

structure StateSnapshot where
  state : String
  iterationCount : Int
  driftCount : Int
  consecutiveFailures : Int
  humanApproved : Bool
  deriving DecidableEq, Repr

inductive UntilState
  | waiting
  | satisfied
  deriving DecidableEq, Repr

/-- The dict ltl_history; its inner dicts are keyed by the text of a rule. -/
structure LTLHistory where
  stateSnapshots : List StateSnapshot := []
  gEvaluations : List Char → Option Bool := fun _ => none
  fEvaluations : List Char → Option Bool := fun _ => none
  xPending : List (List Char) := []
  uStates : List Char → Option UntilState := fun _ => none

namespace LTLHistory

def gKey (inner : List Char) : List Char := "G(".toList ++ (inner ++ [')'])

def fKey (inner : List Char) : List Char := "F(".toList ++ (inner ++ [')'])

def uKey (a b : List Char) : List Char := "U(".toList ++ (a ++ ',' :: (b ++ [')']))

def snapshot (h : LTLHistory) (current : String) (rt : RuntimeState) : LTLHistory :=
  { h with
    stateSnapshots := h.stateSnapshots ++
      [{ state := current
         iterationCount := rt.iterationCount
         driftCount := rt.driftCount
         consecutiveFailures := rt.consecutiveFailures
         humanApproved := rt.humanApproved }] }

/-- What one rule does to the history, and the reason if it is not met. -/
def applyRule (current : String) (rt : RuntimeState) (h : LTLHistory) :
    Formula → LTLHistory × Option String
  | .globally c =>
      let result := Condition.evaluateSingleCondition c rt
      let latched := ((h.gEvaluations (gKey c)).map fun old => old && result).getD result
      ({ h with gEvaluations := Function.update h.gEvaluations (gKey c) (some latched) },
        if latched then none
        else some ("LTL G(" ++ String.ofList c ++ ") violated at state '" ++ current ++ "'"))
  | .eventually c =>
      let result := Condition.evaluateSingleCondition c rt
      let latched := ((h.fEvaluations (fKey c)).map fun old => old || result).getD result
      ({ h with fEvaluations := Function.update h.fEvaluations (fKey c) (some latched) }, none)
  | .next c => ({ h with xPending := h.xPending ++ [c] }, none)
  | .untilRule a b =>
      if (h.uStates (uKey a b)).getD .waiting = .waiting then
        if Condition.evaluateSingleCondition b rt then
          ({ h with uStates := Function.update h.uStates (uKey a b) (some .satisfied) }, none)
        else if Condition.evaluateSingleCondition a rt then (h, none)
        else
          (h, some ("LTL Until violated: '" ++ String.ofList a ++ "' must hold until '" ++
            String.ofList b ++ "' at state '" ++ current ++ "'"))
      else (h, none)
  | .plain c =>
      (h, if Condition.evaluateSingleCondition c rt then none
        else some ("LTL condition '" ++ String.ofList c ++ "' not met"))

/-- The loop over the rules returns at the first one that is not met. -/
def applyRules (current : String) (rt : RuntimeState) :
    LTLHistory → List Formula → LTLHistory × Option String
  | h, [] => (h, none)
  | h, f :: fs =>
      match h.applyRule current rt f with
      | (h, none) => applyRules current rt h fs
      | (h, some reason) => (h, some reason)

/-- _evaluate_ltl_rules; a call that returns no reason is accepted. -/
def evaluateLtlRules (rules : List LTLRule) (current : String) (rt : RuntimeState)
    (h : LTLHistory) : LTLHistory × Option String :=
  if rules.isEmpty then (h, none)
  else
    let h := h.snapshot current rt
    match h.xPending.find? fun c => !Condition.evaluateSingleCondition c rt with
    | some c => (h, some ("LTL X(" ++ String.ofList c ++ ") not satisfied on next transition"))
    | none =>
        applyRules current rt { h with xPending := [] }
          (rules.map fun rule => Formula.ofExpression rule.expression)

end LTLHistory

end Prodinamik.Machine
