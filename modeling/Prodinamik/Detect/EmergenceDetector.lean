import Mathlib.Algebra.Order.Ring.Rat
import Mathlib.Data.List.Sort
import Prodinamik.Detect.DriftCollector
import Prodinamik.Lib.Grouping
import Prodinamik.Lib.Rounding
import Prodinamik.Lib.Text
import Prodinamik.Lib.Words

namespace Prodinamik.Detect

open Lib Grouping Rounding Skills

/-! TrendAnalyzer. -/

def severityMap : DriftSeverity → Rat
  | .low => 1
  | .medium => 2
  | .high => 3
  | .critical => 4

structure SeverityTrend where
  direction : TrendDirection
  rate : Option Rat := none
  confidence : Rat
  dataPoints : Option Nat := none
  deriving DecidableEq

def total (xs : List Rat) : Rat := xs.foldl (fun sum x => sum + x) 0

def mean (xs : List Rat) : Rat := total xs / xs.length

def slope (ys : List Rat) : Rat :=
  let xs := (List.range ys.length).map fun i => (i : Rat)
  total (List.zipWith (fun x y => (x - mean xs) * (y - mean ys)) xs ys) /
    total (xs.map fun x => (x - mean xs) ^ 2)

/-- The trend of all events, over the last fifty. -/
def analyzeSeverityTrend (events : List DriftEvent) : SeverityTrend :=
  if events.length < 3 then ⟨.stable, none, 0, none⟩
  else
    let severities := (events.drop (events.length - 50)).map fun e => severityMap e.severity
    let slope := slope severities
    { direction :=
        if |slope| < 1 / 50 then .stable else if slope < 0 then .improving else .degrading
      rate := some (roundTo 4 slope)
      confidence := roundTo 2 (min 1 ((severities.length : Rat) / 30))
      dataPoints := some severities.length }

/-! EmergenceDetector. -/

def patternKey (event : DriftEvent) : String :=
  event.driftType.value ++ ":" ++ String.ofList (event.description.toList.take 50)

def trendPenalty : TrendDirection → Rat
  | .degrading => 1
  | .stable => 4 / 5
  | .improving => 2 / 5

def calculateConfidence (occurrences uniqueRuns : Nat) (trend : TrendDirection) : Rat :=
  let occurrenceScore : Rat := min 1 ((occurrences : Rat) / 8)
  let runCoverage : Rat := min 1 ((uniqueRuns : Rat) / 4)
  let densityBonus : Rat := min 1 ((occurrences : Rat) / (max uniqueRuns 1 : Nat) / 3)
  roundTo 3 (occurrenceScore * (35 / 100) + runCoverage * (20 / 100) + densityBonus * (25 / 100) +
    trendPenalty trend * (25 / 100))

def generateRecommendation (t : DriftType) (description : String) : String :=
  match t with
  | .format => "Create format validation skill to auto-fix '" ++ description ++ "' patterns"
  | .content => "Create content template skill to standardize '" ++ description ++ "'"
  | .logic => "Create logic guard skill to prevent '" ++ description ++ "' in state transitions"
  | .hallucination => "Create hallucination scanner skill to detect '" ++ description ++ "' patterns"
  | .timeout => "Create timeout handler skill for '" ++ description ++ "'"
  | .validation => "Create validation rule skill for '" ++ description ++ "'"
  | .stateTransition => "Create state guard skill to enforce '" ++ description ++ "' rules"
  | .performance => "Create performance benchmark skill for '" ++ description ++ "'"
  | .dependency => "Create dependency checker skill for '" ++ description ++ "'"
  | .resource => "Create resource monitor skill for '" ++ description ++ "'"

/-- Python's hash of a text and its lower case. -/
structure Host where
  hash : String → Int
  lower : String → String

variable (host : Host)

def generateSkillName (t : DriftType) (description : String) : String :=
  let words := (Words.words Text.isSpace (host.lower description).toList).take 3
  let suffix := "-".intercalate ((words.filter fun w => 3 < w.length).map String.ofList)
  "ai-" ++ t.value ++ "-" ++ if suffix = "" then "auto-detect" else suffix

/-- The candidate of the events of one key, if there are enough of them and they weigh enough. -/
def candidate (trend : TrendDirection) (minOccurrences : Int) :
    List DriftEvent → Option EmergenceCandidate
  | [] => none
  | first :: rest =>
      let events := first :: rest
      let uniqueRuns := (events.map DriftEvent.runId).dedup.length
      let confidence := calculateConfidence events.length uniqueRuns trend
      if (events.length : Int) < minOccurrences then none
      else if confidence < 1 / 2 then none
      else some
        { patternId := "EM-" ++ first.driftType.value ++ "-" ++
            String.ofList (Decimal.pad 4 (host.hash first.description % 10000).toNat)
          driftType := first.driftType
          description := String.ofList (first.description.toList.take 200)
          occurrenceCount := events.length
          affectedRuns := uniqueRuns
          severityTrend := trend
          recommendation := generateRecommendation first.driftType first.description
          suggestedSkillName := generateSkillName host first.driftType first.description
          confidence := confidence }

/-- The trend is taken anew for every group, of the same events. -/
def detectCandidates (events : List DriftEvent) (minOccurrences : Int := 3) :
    List EmergenceCandidate :=
  ((groupBy patternKey events).filterMap fun g =>
    candidate host (analyzeSeverityTrend events).direction minOccurrences g.2).insertionSort
      fun a b => b.confidence ≤ a.confidence

end Prodinamik.Detect
