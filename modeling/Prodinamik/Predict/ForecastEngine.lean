import Mathlib.Algebra.Order.Ring.Rat
import Mathlib.Tactic.NormNum
import Prodinamik.Lib.Deviation
import Prodinamik.Lib.Grouping
import Prodinamik.Lib.Rounding
import Prodinamik.Lib.Smoothing

namespace Prodinamik.Predict

open Lib Deviation Rounding Smoothing

/-- The values of every metric, the oldest first. -/
structure MetricCollector where
  series : ListIndex String Rat := Table.empty
  maxPointsPerMetric : Nat := 1000

namespace MetricCollector

/-- The last values of a list. -/
def newest (n : Nat) (values : List Rat) : List Rat := values.drop (values.length - n)

def record (c : MetricCollector) (name : String) (value : Rat) : MetricCollector :=
  { c with
    series := c.series.put (name, newest c.maxPointsPerMetric (c.series.entry name ++ [value])) }

def getValues (c : MetricCollector) (name : String) : List Rat := newest 100 (c.series.entry name)

end MetricCollector

inductive ForecastMethod
  | movingAverage
  | linearRegression
  | holtWinters
  deriving DecidableEq, Repr

inductive Trend
  | up
  | down
  | stable
  deriving DecidableEq, Repr

structure ForecastResult where
  metric : String
  currentValue : Rat
  predictedValue : Rat
  method : ForecastMethod
  horizonMinutes : Int
  trendDirection : Trend
  accuracyScore : Rat
  deriving DecidableEq, Repr

namespace ForecastEngine

def trendOf (x low high : Rat) : Trend :=
  if x > high then .up else if x < low then .down else .stable

/-- How far values are from what they should have been, against the size of one of them. -/
def accuracy (mae size : Rat) : Rat := max 0 (min 1 (1 - mae / max |size| (1 / 100)))

def maForecast (metric : String) (values : List Rat) (current : Rat) (horizon : Int) :
    ForecastResult :=
  let recent := MetricCollector.newest (min 10 values.length) values
  let ma := mean recent
  let before := values.getD (values.length - 2) 0
  { metric := metric
    currentValue := current
    predictedValue := roundTo 4 ma
    method := .movingAverage
    horizonMinutes := horizon
    trendDirection := if 2 ≤ values.length then trendOf ma before before else .stable
    accuracyScore := roundTo 4 (accuracy (mean (recent.map fun v => |v - ma|)) ma) }

def positions (n : Nat) : List Rat := (List.range n).map Nat.cast

/-- The slope and the intercept of the regression. -/
def regression (values : List Rat) : Rat × Rat :=
  let x := positions values.length
  let xMean := mean x
  let yMean := mean values
  let numerator := ((x.zip values).map fun p => (p.1 - xMean) * (p.2 - yMean)).sum
  let denominator := (x.map fun xi => (xi - xMean) ^ 2).sum
  let slope := if denominator ≠ 0 then numerator / denominator else 0
  (slope, yMean - slope * xMean)

/-- ss_res -/
def residuals (slope intercept : Rat) (values : List Rat) : Rat :=
  (((positions values.length).zip values).map fun p => (p.2 - (slope * p.1 + intercept)) ^ 2).sum

def lrForecast (metric : String) (values : List Rat) (current : Rat) (horizon : Int) :
    ForecastResult :=
  let (slope, intercept) := regression values
  let ssRes := residuals slope intercept values
  let ssTot := squares values
  let rSquared := if ssTot > 0 then 1 - ssRes / ssTot else 0
  { metric := metric
    currentValue := current
    predictedValue := roundTo 4 (slope * values.length + intercept)
    method := .linearRegression
    horizonMinutes := horizon
    trendDirection := trendOf slope (-1 / 100) (1 / 100)
    accuracyScore := roundTo 4 (max 0 rSquared) }

def alpha : Rat := 3 / 10

def beta : Rat := 1 / 10

/-- The level and the trend after all values. -/
def smoothed : List Rat → Rat × Rat
  | [] => (0, 0)
  | [value] => (value, 0)
  | first :: second :: rest =>
      (second :: rest).foldl (smooth alpha beta) (first, second - first)

def steps (horizon : Int) : Int := max 1 (horizon / 5)

/-- What is predicted, before it is rounded. -/
def predicted (values : List Rat) (horizon : Int) : Rat :=
  (smoothed values).1 + steps horizon * (smoothed values).2

def hwForecast (metric : String) (values : List Rat) (current : Rat) (horizon : Int) :
    ForecastResult :=
  if values.length < 3 then lrForecast metric values current horizon
  else
    let errors := List.zipWith (fun before value => |value - (before + (value - before) / 2)|)
      values values.tail
    { metric := metric
      currentValue := current
      predictedValue := roundTo 4 (predicted values horizon)
      method := .holtWinters
      horizonMinutes := horizon
      trendDirection := trendOf (smoothed values).2 (-1 / 100) (1 / 100)
      accuracyScore := roundTo 4 (accuracy (mean errors) (values.getLastD 0)) }

/-- A method that is not given is chosen by how many values there are. -/
def forecast (c : MetricCollector) (metric : String) (horizon : Int)
    (method : Option ForecastMethod) : Option ForecastResult :=
  let values := c.getValues metric
  if values.length < 3 then none
  else
    let current := values.getLastD 0
    match method.getD (if 10 ≤ values.length then .linearRegression else .movingAverage) with
    | .movingAverage => some (maForecast metric values current horizon)
    | .linearRegression => some (lrForecast metric values current horizon)
    | .holtWinters => some (hwForecast metric values current horizon)

def risingLatency : MetricCollector :=
  (List.range 10).foldl (fun c i => c.record "latency_ms" (10 * i)) {}

section Regression

open LeastSquares

variable {values : List Rat}

theorem squares_positions {n : Nat} (hn : 2 ≤ n) : squares (positions n) ≠ 0 := by
  intro h
  have hmem : ∀ k < n, (k : Rat) ∈ positions n := fun k hk =>
    List.mem_map_of_mem (List.mem_range.mpr hk)
  have hzero := eq_mean_of_squares h _ (hmem 0 (by omega))
  have hone := eq_mean_of_squares h _ (hmem 1 (by omega))
  rw [← hzero] at hone
  norm_num at hone

def points (values : List Rat) : List (Rat × Rat) := (positions values.length).zip values

theorem length_positions (n : Nat) : (positions n).length = n := by
  rw [positions, List.length_map, List.length_range]

theorem map_fst_points (values : List Rat) :
    (points values).map Prod.fst = positions values.length :=
  List.map_fst_zip (length_positions _).le

theorem map_snd_points (values : List Rat) : (points values).map Prod.snd = values :=
  List.map_snd_zip (length_positions _).ge

theorem regression_eq (h : 2 ≤ values.length) :
    regression values = (bestSlope (points values), bestIntercept (points values)) := by
  have hne := squares_positions h
  simp only [regression, bestSlope, bestIntercept, products, map_fst_points, map_snd_points]
  rw [if_pos (by exact hne)]
  rfl

/-- With ten values or more and no method given, the forecast is the next point of the one line
with the least squared distances, and its accuracy is the share of the squares that the
line explains: it is never cut off at zero. -/
theorem forecast_least (c : MetricCollector) (metric : String) (horizon : Int)
    (h : 10 ≤ (c.getValues metric).length) :
    ∃ a b r, forecast c metric horizon none = some r ∧
      (∀ a' b', residuals a b (c.getValues metric) ≤ residuals a' b' (c.getValues metric)) ∧
      (∀ a' b', residuals a' b' (c.getValues metric) ≤ residuals a b (c.getValues metric) →
        a' = a ∧ b' = b) ∧
      r.predictedValue = roundTo 4 (a * (c.getValues metric).length + b) ∧
      residuals a b (c.getValues metric) ≤ squares (c.getValues metric) ∧
      r.accuracyScore = roundTo 4 (if squares (c.getValues metric) = 0 then 0
        else 1 - residuals a b (c.getValues metric) / squares (c.getValues metric)) := by
  generalize hvalues : c.getValues metric = values at h ⊢
  have hx : squares ((points values).map Prod.fst) ≠ 0 := by
    rw [map_fst_points]
    exact squares_positions (by omega)
  have hle : residuals (bestSlope (points values)) (bestIntercept (points values)) values ≤
      squares values := by
    have := errors_le_squares hx
    rwa [map_snd_points] at this
  refine ⟨bestSlope (points values), bestIntercept (points values),
    lrForecast metric values (values.getLastD 0) horizon, ?_, fun a' b' => least hx a' b',
    fun a' b' h => eq_of_errors_le hx h, ?_, hle, ?_⟩
  · rw [forecast, hvalues, if_neg (by omega)]
    simp only [Option.getD_none, if_pos h]
  · rw [lrForecast, regression_eq (by omega)]
  · rw [lrForecast, regression_eq (by omega)]
    simp only
    have hnonneg := squares_nonneg values
    by_cases hzero : squares values = 0
    · rw [if_pos hzero, if_neg (by rw [hzero]; exact lt_irrefl 0), max_self]
    · have hpos : 0 < squares values := hnonneg.lt_of_ne' hzero
      rw [if_neg hzero, if_pos hpos, max_eq_right]
      rw [sub_nonneg]
      exact (div_le_one hpos).mpr hle

/-- Values on a line are on the one line that fits them best. -/
theorem forecast_least_rising : ∃ r,
    forecast risingLatency "latency_ms" 60 none = some r ∧ r.predictedValue = 100 := by
  obtain ⟨a, b, r, hr, -, hunique, hpredicted, -⟩ :=
    forecast_least risingLatency "latency_ms" 60 (by decide)
  have hexact : residuals 10 0 (risingLatency.getValues "latency_ms") = 0 := by decide +kernel
  obtain ⟨rfl, rfl⟩ := hunique 10 0 (hexact.le.trans (errors_nonneg a b (points _)))
  exact ⟨r, hr, hpredicted.trans (by decide +kernel)⟩

end Regression

section HoltWinters

theorem swings : Swings alpha beta where
  level_pos := by norm_num [alpha]
  level_lt := by norm_num [alpha]
  trend_pos := by norm_num [beta]
  swings := by norm_num [alpha, beta]

/-- What the first two values are off a line. -/
theorem form_start {d e ε : Rat} (hd : |d| ≤ ε) (he : |e| ≤ ε) :
    form alpha beta (d, e - d) ≤ 337 / 100 * ε ^ 2 := by
  obtain ⟨hd1, hd2⟩ := abs_le.mp hd
  obtain ⟨he1, he2⟩ := abs_le.mp he
  have hdd : d ^ 2 ≤ ε ^ 2 := sq_le_sq' hd1 hd2
  have hee : e ^ 2 ≤ ε ^ 2 := sq_le_sq' he1 he2
  have hde : -(d * e) ≤ ε ^ 2 := by linarith [sq_nonneg (d + e)]
  calc form alpha beta (d, e - d)
      = d ^ 2 - 167 / 100 * (d * e) + 7 / 10 * e ^ 2 := by
        rw [form, alpha, beta]
        ring
    _ ≤ 337 / 100 * ε ^ 2 := by linarith

/-- On values near a line the smoothed forecast is near the line: the error is bounded by a
multiple of theirs that grows with the horizon alone, and the start is forgotten. -/
theorem forecast_near (c : MetricCollector) (metric : String) (horizon : Int) (a b ε : Rat)
    (h : 3 ≤ (c.getValues metric).length)
    (hline : ∀ (i : Nat) v, (c.getValues metric)[i]? = some v → |v - (a * i + b)| ≤ ε) :
    ∃ p r, forecast c metric horizon (some .holtWinters) = some r ∧ r.predictedValue = roundTo 4 p ∧
      (p - (a * ((c.getValues metric).length - 1 + steps horizon) + b)) ^ 2 ≤
        4 / 555 * (70 + 27 * steps horizon + 3 * steps horizon ^ 2) *
          (1667 * (4 / 5) ^ ((c.getValues metric).length - 1) + 18) * ε ^ 2 := by
  generalize hvalues : c.getValues metric = values at h hline ⊢
  obtain ⟨first, second, rest, rfl⟩ : ∃ first second rest, values = first :: second :: rest := by
    match values, h with
    | first :: second :: rest, _ => exact ⟨first, second, rest, rfl⟩
  have hfirst : |first - b| ≤ ε := by simpa using hline 0 first rfl
  have hsecond : |second - (a + b)| ≤ ε := by simpa using hline 1 second rfl
  obtain ⟨ds, hlength, hds, hfold⟩ := @exists_foldl_line _ _ _ alpha beta a b ε (second :: rest)
    (fun i v hv => by
      have := hline (i + 1) v hv
      push_cast at this
      rwa [show b + a * (i + 1) = a * (i + 1) + b by ring])
    (first - b, second - (a + b) - (first - b))
  have hstate : smoothed (first :: second :: rest) =
      (second :: rest).foldl (smooth alpha beta)
        (b + (first - b), a + (second - (a + b) - (first - b))) := by
    rw [smoothed]
    congr 2
    · ring
    · ring
  have hform := @swings.form_foldl_le _ _ _ _ _ _ (1 / 7) (4 / 5) (9 / 250) ε (by norm_num)
    (by norm_num [alpha]) (by norm_num) (by norm_num [alpha, beta]) ds hds
    (first - b, second - (a + b) - (first - b))
  have hstart := form_start hfirst hsecond
  refine ⟨predicted (first :: second :: rest) horizon,
    hwForecast metric (first :: second :: rest) ((first :: second :: rest).getLastD 0) horizon,
    ?_, ?_, ?_⟩
  · rw [forecast, hvalues, if_neg (by omega)]
    simp only [Option.getD_some]
  · rw [hwForecast, if_neg (by omega)]
  · generalize ds.foldl (smooth alpha beta) (first - b, second - (a + b) - (first - b)) = s
      at hfold hform
    have hoff : predicted (first :: second :: rest) horizon -
        (a * ((first :: second :: rest).length - 1 + steps horizon) + b) =
          s.1 + steps horizon * s.2 := by
      rw [predicted, hstate, hfold]
      simp only [List.length_cons]
      push_cast
      ring
    have hfar := @sq_le_form _ _ _ _ alpha beta s (steps horizon)
    have hsteps : (0 : Rat) ≤ steps horizon := by
      exact_mod_cast (le_max_left 1 (horizon / 5)).trans' zero_le_one
    have hpow : (0 : Rat) ≤ (4 / 5) ^ ds.length := by positivity
    have hsmall : form alpha beta s ≤ (1667 * (4 / 5) ^ ds.length + 18) * ε ^ 2 / 500 := by
      have := mul_le_mul_of_nonneg_left hstart hpow
      linarith
    have hwide : (0 : Rat) ≤ 70 + 27 * steps horizon + 3 * steps horizon ^ 2 := by positivity
    have hprod := mul_le_mul_of_nonneg_left hsmall hwide
    rw [hoff, List.length_cons, Nat.add_sub_cancel, ← hlength]
    generalize form alpha beta s = F at hfar hsmall hprod
    norm_num [alpha, beta] at hfar
    linarith

/-- An hour is twelve steps on. -/
theorem forecast_near_rising : ∃ r,
    forecast risingLatency "latency_ms" 60 (some .holtWinters) = some r ∧
      r.predictedValue = 210 := by
  have hvalues : risingLatency.getValues "latency_ms" =
      (List.range 10).map fun (i : Nat) => (10 * i : Rat) := by
    decide +kernel
  have hline : ∀ (i : Nat) v, (risingLatency.getValues "latency_ms")[i]? = some v →
      |v - (10 * i + 0)| ≤ 0 := by
    intro i v hv
    rw [hvalues, List.getElem?_map] at hv
    obtain ⟨k, hk, rfl⟩ := Option.map_eq_some_iff.mp hv
    obtain ⟨hlt, rfl⟩ := List.getElem?_eq_some_iff.mp hk
    rw [List.getElem_range, add_zero, sub_self, abs_zero]
  obtain ⟨p, r, hr, hpredicted, hp⟩ :=
    forecast_near risingLatency "latency_ms" 60 10 0 0 (by decide) hline
  have hlength : ((risingLatency.getValues "latency_ms").length : Rat) = 10 := by
    rw [hvalues]
    simp
  have hsteps : (steps 60 : Rat) = 12 := rfl
  rw [hlength, hsteps] at hp
  have hzero : p - 210 = 0 := pow_eq_zero_iff two_ne_zero |>.mp (by nlinarith)
  refine ⟨r, hr, hpredicted.trans ?_⟩
  rw [sub_eq_zero.mp hzero]
  decide +kernel

end HoltWinters

end ForecastEngine

end Prodinamik.Predict
