import Mathlib.Algebra.Order.Ring.Rat
import Mathlib.Data.Rat.Lemmas
import Mathlib.Data.String.Basic
import Prodinamik.Lib.Grouping
import Prodinamik.Lib.PyList
import Prodinamik.Lib.StableSort

namespace Prodinamik.Recommend

open Lib Grouping

structure TransitionRecord where
  runId : String
  profile : String
  fromState : String
  toState : String
  timestamp : Int
  durationSeconds : Rat
  success : Bool
  error : Option String := none
  deriving DecidableEq

inductive Reliability
  | insufficientData
  | highlyReliable
  | reliable
  | unstable
  | unreliable
  deriving DecidableEq

def Reliability.value : Reliability → String
  | insufficientData => "insufficient_data"
  | highlyReliable => "highly_reliable"
  | reliable => "reliable"
  | unstable => "unstable"
  | unreliable => "unreliable"

structure TransitionStats where
  fromState : String
  toState : String
  totalAttempts : Nat
  successCount : Nat
  failureCount : Nat
  avgDuration : Rat
  medianDuration : Rat
  lastUsed : Option Int := none
  commonErrors : List (String × Nat) := []
  deriving DecidableEq

namespace TransitionStats

def successRate (s : TransitionStats) : Rat :=
  if 0 < s.totalAttempts then s.successCount / s.totalAttempts else 0

def reliability (s : TransitionStats) : Reliability :=
  if s.totalAttempts < 3 then .insufficientData
  else if 95 / 100 ≤ s.successRate then .highlyReliable
  else if 80 / 100 ≤ s.successRate then .reliable
  else if 60 / 100 ≤ s.successRate then .unstable
  else .unreliable

end TransitionStats

structure Recommendation where
  runId : String
  currentState : String
  recommendedStates : List (String × Rat)
  bestNextState : String
  confidence : Rat
  reasoning : String
  estimatedDuration : Rat := 0
  warnings : List String := []
  deriving DecidableEq

structure TransitionHistory where
  maxRecords : Nat := 5000
  records : List TransitionRecord
  bounded : records.length ≤ maxRecords

namespace TransitionHistory

/-- A new record, for which the oldest one goes where there are too many. -/
def record (h : TransitionHistory) (r : TransitionRecord) : TransitionHistory where
  maxRecords := h.maxRecords
  records :=
    if h.maxRecords < (h.records ++ [r]).length then (h.records ++ [r]).tail
    else h.records ++ [r]
  bounded := by
    split
    · rw [List.length_tail, List.length_append, List.length_singleton]
      exact h.bounded
    · exact not_lt.mp ‹_›

def mean (xs : List Rat) : Rat := xs.foldl (· + ·) 0 / xs.length

def median (xs : List Rat) : Rat :=
  let sorted := xs.insertionSort (· ≤ ·)
  if xs.length % 2 = 1 then sorted.getD (xs.length / 2) 0
  else (sorted.getD (xs.length / 2 - 1) 0 + sorted.getD (xs.length / 2) 0) / 2

def mostCommon (texts : List String) (n : Nat) : List (String × Nat) :=
  (((firsts texts).map fun e => (e, texts.count e)).insertionSort fun a b => b.2 ≤ a.2).take n

def stats (fromState toState : String) (recs : List TransitionRecord) : TransitionStats :=
  let durations := recs.map TransitionRecord.durationSeconds
  let failures := recs.filter fun r => !r.success
  { fromState := fromState
    toState := toState
    totalAttempts := recs.length
    successCount := (recs.filter TransitionRecord.success).length
    failureCount := failures.length
    avgDuration := if durations = [] then 0 else mean durations
    medianDuration := if durations = [] then 0 else median durations
    lastUsed := (recs.map TransitionRecord.timestamp).max?
    commonErrors := mostCommon (failures.filterMap fun r => r.error.filter (· ≠ "")) 5 }

def transitionKey (fromState toState : String) : String := fromState ++ "→" ++ toState

/-- The empty text stands for no filter. -/
def filtered (h : TransitionHistory) (fromState profile : String) : List TransitionRecord :=
  let records :=
    if fromState = "" then h.records else h.records.filter fun r => r.fromState = fromState
  if profile = "" then records else records.filter fun r => r.profile = profile

def analyze (h : TransitionHistory) (fromState profile : String := "") :
    String → Option TransitionStats :=
  assign (fun g => transitionKey g.1.1 g.1.2) (fun g => stats g.1.1 g.1.2 g.2)
    (groupBy (fun r => (r.fromState, r.toState)) (h.filtered fromState profile))

def getPossibleTransitions (h : TransitionHistory) (state : String) : List String :=
  (((h.records.filter fun r => r.fromState = state).map
    TransitionRecord.toState).dedup).insertionSort (· ≤ ·)

def commonTransitions : String → List String
  | "captured" => ["idea_review"]
  | "idea_review" => ["brief_ready", "captured"]
  | "brief_ready" => ["drafting"]
  | "drafting" => ["drafting", "verification"]
  | "verification" => ["drafting", "draft_review"]
  | "draft_review" => ["approved", "drafting"]
  | "approved" => ["scheduler_ready"]
  | "scheduled" => ["published"]
  | "published" => ["feedback_24h"]
  | _ => []

/-- The profile is asked for and not used. -/
def getValidTargets (h : TransitionHistory) (currentState _profile : String) : List String :=
  if h.getPossibleTransitions currentState = [] then commonTransitions currentState
  else h.getPossibleTransitions currentState

def lookup (h : TransitionHistory) (fromState toState : String) : Option TransitionStats :=
  h.analyze fromState "" (transitionKey fromState toState)

/-- Times are in microseconds. -/
def hoursSince (now t : Int) : Rat := (now - t : Int) / 3600000000

def statScore (now : Int) (s : TransitionStats) : Rat :=
  s.successRate * (1 / 2) + min (3 / 10 : Rat) ((s.totalAttempts : Rat) / 50 * (3 / 10)) +
    match s.lastUsed with
    | some t => max 0 (1 / 5 - hoursSince now t / 720 * (1 / 5))
    | none => 0

def scoreTransition (h : TransitionHistory) (now : Int) (fromState toState _profile : String) : Rat :=
  match h.lookup fromState toState with
  | some s => statScore now s
  | none => 3 / 10

section

variable (percent : Rat → String)

def generateReasoning (h : TransitionHistory) (fromState toState profile : String) : String :=
  match h.lookup fromState toState with
  | some s => "Transition " ++ fromState ++ " → " ++ toState ++ " has " ++ percent s.successRate ++
      " success rate (" ++ toString s.successCount ++ "/" ++ toString s.totalAttempts ++
      " attempts). Reliability: " ++ s.reliability.value ++ "."
  | none => "No historical data for " ++ fromState ++ " → " ++ toState ++
      ". This is a standard transition in the " ++ profile ++ " profile."

def estimateDuration (h : TransitionHistory) (fromState toState : String) : Rat :=
  match h.lookup fromState toState with
  | some s => s.avgDuration
  | none => 30

def getWarnings (h : TransitionHistory) (fromState toState : String) : List String :=
  match h.lookup fromState toState with
  | none => []
  | some s =>
      let errors := (s.commonErrors.take 2).map Prod.fst
      (if s.reliability = .unreliable then
        ["Low success rate (" ++ percent s.successRate ++ ") — consider manual verification"]
      else []) ++
      if 0 < s.failureCount ∧ errors ≠ [] then ["Common errors: " ++ ", ".intercalate errors]
      else []

def scored (h : TransitionHistory) (now : Int) (currentState profile : String) :
    List (String × Rat) :=
  ((h.getValidTargets currentState profile).map fun target =>
    (target, h.scoreTransition now currentState target profile)).insertionSort fun a b => b.2 ≤ a.2

/-- All scores are taken at one time. -/
def recommend (h : TransitionHistory) (now : Int) (runId currentState : String)
    (profile : String := "default") (topN : Int := 3) : Option Recommendation :=
  (h.scored now currentState profile).head?.map fun best =>
    { runId := runId
      currentState := currentState
      recommendedStates := PyList.slice (h.scored now currentState profile) topN
      bestNextState := best.1
      confidence := best.2
      reasoning := h.generateReasoning percent currentState best.1 profile
      estimatedDuration := h.estimateDuration currentState best.1
      warnings := h.getWarnings percent currentState best.1 }

end

end TransitionHistory

end Prodinamik.Recommend
