import Mathlib.Algebra.Order.Ring.Archimedean
import Mathlib.Analysis.Real.Sqrt
import Prodinamik.Events.Accounts
import Prodinamik.Lib.Deviation
import Prodinamik.Lib.Rounding

namespace Prodinamik.Budget

open Events Events.EventStore Lib.Deviation Lib.Rounding

/-- An event that costs far more than the others. -/
structure CostAnomaly where
  sequence : Nat
  eventType : String
  costUsd : Rat
  mean : Rat
  deriving DecidableEq, Repr

/-- There is no mean and nothing by type where there are no events. -/
structure CostAnalysis where
  totalCost : Rat
  eventCount : Nat
  anomalies : List CostAnomaly
  meanCost : Option Rat := none
  topByType : Option (List (String × Rat)) := none
  deriving DecidableEq, Repr

/-- statistics.stdev; a single value has none. -/
noncomputable def stdev (costs : List Rat) : ℝ :=
  if 1 < costs.length then √(squares costs / (costs.length - 1) : Rat) else 1 / 1000

structure Anomalous (costs : List Rat) (cost : Rat) : Prop where
  far : (mean costs : Rat) + 3 * stdev costs < (cost : ℝ)
  dear : 1 / 100 < cost

/-- The threshold without the root. -/
def Far (costs : List Rat) (cost : Rat) : Prop :=
  if 1 < costs.length then
    mean costs < cost ∧ 9 * (squares costs / (costs.length - 1)) < (cost - mean costs) ^ 2
  else mean costs + 3 / 1000 < cost

instance (costs : List Rat) : DecidablePred (Far costs) := fun cost => by
  unfold Far
  infer_instance

theorem far_iff (costs : List Rat) (cost : Rat) :
    (mean costs : Rat) + 3 * stdev costs < (cost : ℝ) ↔ Far costs cost := by
  rw [stdev, Far]
  split
  case isFalse => 
    rw [← Rat.cast_lt (K := ℝ)]
    push_cast
    norm_num
  case isTrue =>
    generalize mean costs = m
    generalize squares costs / (costs.length - 1 : Rat) = v
    by_cases hm : m < cost
    · have hpos : (0 : ℝ) < (cost - m) / 3 := by
        have := Rat.cast_lt (K := ℝ) |>.mpr hm
        linarith
      have hroot : (m : ℝ) + 3 * √(v : ℝ) < cost ↔ √(v : ℝ) < (cost - m) / 3 := by
        constructor
        · intro h
          linarith
        · intro h
          linarith
      rw [hroot, Real.sqrt_lt' hpos, and_iff_right hm, ← Rat.cast_lt (K := ℝ)]
      push_cast
      constructor
      · intro h
        linarith
      · intro h
        linarith
    · have hle : (cost : ℝ) ≤ m := Rat.cast_le.mpr (not_lt.mp hm)
      have hroot := Real.sqrt_nonneg (v : ℝ)
      exact iff_of_false (by linarith) fun h => hm h.1

theorem anomalous_iff (costs : List Rat) (cost : Rat) :
    Anomalous costs cost ↔ Far costs cost ∧ 1 / 100 < cost := by
  rw [← far_iff]
  exact ⟨fun h => ⟨h.far, h.dear⟩, fun h => ⟨h.1, h.2⟩⟩

instance (costs : List Rat) : DecidablePred (Anomalous costs) := fun cost =>
  decidable_of_iff' _ (anomalous_iff costs cost)

/-- by_type[e.event_type] = by_type.get(e.event_type, 0.0) + e.cost_usd -/
def byType (events : List Event) : List (String × Rat) :=
  events.foldl (fun costs e => addCost costs e.eventType e.costUsd) []

namespace TemporalCostDebugger

def analyzeEvents (events : List Event) : CostAnalysis :=
  if events = [] then { totalCost := 0, eventCount := 0, anomalies := [] }
  else
    let costs := events.map Event.costUsd
    { totalCost := roundTo 4 costs.sum
      eventCount := events.length
      meanCost := some (roundTo 4 (mean costs))
      anomalies := (events.filter fun e => Anomalous costs e.costUsd).map fun e =>
        ⟨e.sequence, e.eventType, e.costUsd, mean costs⟩
      topByType := some (((byType events).insertionSort Costlier).take 5) }

theorem anomalies_length (events : List Event) : (analyzeEvents events).anomalies.length =
    ((events.map Event.costUsd).filter (Anomalous (events.map Event.costUsd))).length := by
  rw [analyzeEvents]
  split
  case isTrue h => simp [h]
  case isFalse h =>
    simp only [List.length_map, List.filter_map]
    rfl

/-- One cost is not above its mean. -/
theorem not_anomalous_of_length {costs : List Rat} (hlength : costs.length ≤ 1) :
    costs.filter (Anomalous costs) = [] := by
  rw [List.filter_eq_nil_iff]
  intro cost hcost
  obtain ⟨c, rfl⟩ := List.length_eq_one_iff.mp (le_antisymm hlength (List.length_pos_of_mem hcost))
  rw [List.mem_singleton.mp hcost]
  norm_num [anomalous_iff, Far, mean]

theorem stdev_nonneg (costs : List Rat) : 0 ≤ stdev costs := by
  rw [stdev]
  split
  · exact Real.sqrt_nonneg _
  · norm_num

theorem stdev_sq {costs : List Rat} (hlength : 1 < costs.length) :
    stdev costs ^ 2 * (costs.length - 1) = squares (costs.map (Rat.castHom ℝ)) := by
  have hn : (0 : Rat) < costs.length - 1 := by
    have : (1 : Rat) < costs.length := by exact_mod_cast hlength
    linarith
  have hnonneg : (0 : ℝ) ≤ (squares costs / (costs.length - 1) : Rat) :=
    Rat.cast_nonneg.mpr (div_nonneg (squares_nonneg costs) hn.le)
  have hreal : (costs.length - 1 : ℝ) ≠ 0 := by
    have : ((costs.length - 1 : Rat) : ℝ) ≠ 0 := Rat.cast_ne_zero.mpr hn.ne'
    push_cast at this
    exact this
  rw [stdev, if_pos hlength, Real.sq_sqrt hnonneg, squares_map, Rat.coe_castHom]
  push_cast
  exact div_mul_cancel₀ _ hreal

/-- Costs that are all the same are not far from each other. -/
theorem stdev_pos {costs : List Rat} (hlength : 1 < costs.length)
    (hne : costs.filter (Anomalous costs) ≠ []) : 0 < stdev costs := by
  refine (stdev_nonneg costs).lt_of_ne' fun hzero => hne (List.filter_eq_nil_iff.mpr ?_)
  intro cost hcost hanomalous
  have hfar := (of_decide_eq_true hanomalous).far
  have hsquares := stdev_sq hlength
  rw [hzero, squares_map] at hsquares
  have hcosts : squares costs = 0 := by
    have : ((squares costs : Rat) : ℝ) = 0 := by
      rw [← Rat.coe_castHom, ← hsquares]
      ring
    exact_mod_cast this
  rw [eq_mean_of_squares hcosts cost hcost, hzero] at hfar
  linarith

theorem length_le_above (costs : List Rat) : (costs.filter (Anomalous costs)).length ≤
    (above (3 * stdev costs) (costs.map (Rat.castHom ℝ))).length := by
  rw [above, List.filter_map, List.length_map, mean_map]
  refine (List.monotone_filter_right costs fun cost hcost => ?_).length_le
  exact decide_eq_true (of_decide_eq_true hcost).far

/-- The inequality at three standard deviations. -/
theorem lt_of_anomalous {costs : List Rat} (hne : costs.filter (Anomalous costs) ≠ []) :
    (costs.filter (Anomalous costs)).length * (10 * costs.length - 1) <
      costs.length * (costs.length - 1) := by
  have hlength : 1 < costs.length := by
    by_contra hle
    exact hne (not_anomalous_of_length (not_lt.mp hle))
  have hpos := stdev_pos hlength hne
  have habove := length_le_above costs
  have hne' : above (3 * stdev costs) (costs.map (Rat.castHom ℝ)) ≠ [] := by
    intro hnil
    rw [hnil, List.length_nil, Nat.le_zero, List.length_eq_zero_iff] at habove
    exact hne habove
  have hcantelli := cantelli (by linarith) hne'
  rw [← stdev_sq hlength, List.length_map] at hcantelli
  obtain ⟨n, hn⟩ := Nat.exists_eq_add_of_lt hlength
  generalize (above (3 * stdev costs) (costs.map (Rat.castHom ℝ))).length = a at habove hcantelli
  rw [hn] at hcantelli ⊢
  have hreal : (a : ℝ) * (10 * n + 19) < (n + 2) * (n + 1) := by
    refine lt_of_mul_lt_mul_left ?_ (sq_nonneg (stdev costs))
    push_cast at hcantelli
    linarith
  have hnat : a * (10 * n + 19) < (n + 2) * (n + 1) := by exact_mod_cast hreal
  calc (costs.filter (Anomalous costs)).length * (10 * (1 + n + 1) - 1)
      ≤ a * (10 * n + 19) := Nat.mul_le_mul habove (by omega)
    _ < (n + 2) * (n + 1) := hnat
    _ = (1 + n + 1) * (1 + n + 1 - 1) := by
        rw [Nat.add_sub_cancel]
        ring

/-- Some that cost a dollar among others that cost nothing. -/
theorem far_ones {k m : Nat} (hk : 0 < k)
    (h : k * (10 * (k + m) - 1) < (k + m) * (k + m - 1)) : Far (ones k m) 1 := by
  have hm : 0 < m := by
    rcases Nat.eq_zero_or_pos m with rfl | hm
    · have hle : (k + 0) * (k + 0 - 1) ≤ k * (10 * (k + 0) - 1) := Nat.mul_le_mul le_rfl (by omega)
      omega
    · exact hm
  have hlength : (ones k m : List Rat).length = k + m := by simp [ones]
  have hkq : (0 : Rat) < k := by exact_mod_cast hk
  have hmq : (1 : Rat) ≤ m := by exact_mod_cast hm
  have hq : (9 : Rat) * k * (k + m) < m * (k + m - 1) := by
    obtain ⟨n, hn⟩ : ∃ n, k + m = n + 1 := ⟨k + m - 1, by omega⟩
    have hstrict : k * (10 * n + 9) < (n + 1) * n := by
      rw [hn] at h
      simpa [Nat.mul_add] using h
    have hq : (k : Rat) * (10 * n + 9) < (n + 1) * n := by exact_mod_cast hstrict
    have hsum : (k : Rat) + m = n + 1 := by exact_mod_cast hn
    have hmn : (m : Rat) = n + 1 - k := by linarith
    rw [hsum, hmn]
    linarith
  have hpos : (0 : Rat) < k + m := by linarith
  have hpos' : (0 : Rat) < k + m - 1 := by linarith
  have hrest : (1 : Rat) - k / (k + m) = m / (k + m) := by
    field_simp
    ring
  rw [Far, hlength, if_pos (by omega), mean_ones, squares_ones (by omega)]
  push_cast
  refine ⟨(div_lt_one hpos).mpr (by linarith), ?_⟩
  rw [hrest, div_div, mul_div_assoc', div_pow, div_lt_div_iff₀ (mul_pos hpos hpos') (pow_pos hpos 2)]
  calc 9 * ((k : Rat) * m) * (k + m) ^ 2
      = m * (k + m) * (9 * k * (k + m)) := by ring
    _ < m * (k + m) * (m * (k + m - 1)) := mul_lt_mul_of_pos_left hq (mul_pos (by linarith) hpos)
    _ = m ^ 2 * ((k + m) * (k + m - 1)) := by ring

theorem filter_ones {costs : List Rat} {k m : Nat} (h : 0 < k → Anomalous costs 1) :
    (ones k m : List Rat).filter (Anomalous costs) = List.replicate k 1 := by
  have hzero : ¬ Anomalous costs 0 := fun hcost => absurd hcost.dear (by norm_num)
  have hnone : (List.replicate m (0 : Rat)).filter (Anomalous costs) = [] := by
    rw [List.filter_eq_nil_iff]
    intro cost hcost
    simpa [List.eq_of_mem_replicate hcost] using hzero
  rw [ones, List.filter_append, hnone, List.append_nil]
  rcases Nat.eq_zero_or_pos k with rfl | hk
  · rfl
  · exact List.filter_replicate_of_pos (decide_eq_true (h hk))

/-- How many of so many events can be anomalies at all. -/
theorem anomalies_length_iff (n k : Nat) : (∃ events : List Event, events.length = n ∧
    (analyzeEvents events).anomalies.length = k) ↔ k = 0 ∨ k * (10 * n - 1) < n * (n - 1) := by
  constructor
  · rintro ⟨events, rfl, rfl⟩
    rw [anomalies_length, ← List.length_map (f := Event.costUsd)]
    by_cases hne : (events.map Event.costUsd).filter (Anomalous (events.map Event.costUsd)) = []
    · exact .inl (by rw [hne, List.length_nil])
    · exact .inr (lt_of_anomalous hne)
  · intro h
    have hk : k ≤ n := by
      by_contra hlt
      have hle : n * (n - 1) ≤ k * (10 * n - 1) := Nat.mul_le_mul (by omega) (by omega)
      omega
    let event (cost : Rat) : Event :=
      { runSlug := "", timestamp := "", eventType := "validation", costUsd := cost }
    have hcosts : ((ones k (n - k)).map event).map Event.costUsd = ones k (n - k) := by
      rw [List.map_map]
      exact List.map_id _
    refine ⟨(ones k (n - k)).map event, by simp [ones, hk], ?_⟩
    rw [anomalies_length, hcosts, filter_ones, List.length_replicate]
    intro hpos
    refine (anomalous_iff _ _).mpr ⟨far_ones hpos ?_, by norm_num⟩
    rw [Nat.add_sub_cancel' hk]
    exact h.resolve_left hpos.ne'

/-! What the types of the events cost. -/

def costOfType (events : List Event) (type : String) : Rat :=
  ((events.filter fun e => e.eventType = type).map Event.costUsd).sum

theorem mem_keys_addCost {costs : List (String × Rat)} {name type : String} {cost : Rat} :
    type ∈ (addCost costs name cost).map Prod.fst ↔ type ∈ costs.map Prod.fst ∨ type = name := by
  rw [addCost]
  split
  case isTrue hname =>
    have hkeys : (Prod.fst ∘ fun c : String × Rat => if c.1 = name then (c.1, c.2 + cost) else c) =
        Prod.fst := by
      funext c
      simp only [Function.comp_apply]
      split <;> rfl
    rw [List.map_map, hkeys, or_iff_left_of_imp]
    rintro rfl
    exact hname
  case isFalse => simp

theorem byType_concat (events : List Event) (e : Event) :
    byType (events ++ [e]) = addCost (byType events) e.eventType e.costUsd := by
  rw [byType, List.foldl_append]
  rfl

theorem nodup_byType (events : List Event) : ((byType events).map Prod.fst).Nodup := by
  induction events using List.reverseRecOn with
  | nil => exact List.nodup_nil
  | append_singleton events e ih =>
      rw [byType_concat]
      exact nodup_addCost ih _ _

theorem mem_byType {events : List Event} {type : String} {cost : Rat} :
    (type, cost) ∈ byType events ↔
      cost = costOfType events type ∧ ∃ e ∈ events, e.eventType = type := by
  have hkeys : type ∈ (byType events).map Prod.fst ↔ ∃ e ∈ events, e.eventType = type := by
    induction events using List.reverseRecOn with
    | nil => simp [byType]
    | append_singleton events e ih =>
        rw [byType_concat, mem_keys_addCost, ih]
        simp [or_and_right, exists_or, eq_comm]
  have hcost : tableCost (byType events) type = costOfType events type := by
    clear hkeys
    induction events using List.reverseRecOn with
    | nil => rfl
    | append_singleton events e ih =>
        rw [byType_concat, tableCost_addCost, ih, costOfType, costOfType, List.filter_append]
        by_cases htype : e.eventType = type
        · simp [htype]
        · simp [htype]
  let table : Lib.Table (Prod.fst : String × Rat → String) := ⟨byType events, nodup_byType events⟩
  have hshown {p : String × Rat} (hp : p ∈ byType events) (hname : p.1 = type) :
      p.2 = costOfType events type := by
    have hget : table.get type = some p := Lib.Table.get_eq_some.mpr ⟨hp, hname⟩
    have htable : tableCost (byType events) type = ((table.get type).map Prod.snd).getD 0 := rfl
    rw [← hcost, htable, hget, Option.map_some, Option.getD_some]
  constructor
  · exact fun hmem => ⟨hshown hmem rfl, hkeys.mp (List.mem_map_of_mem hmem)⟩
  · rintro ⟨rfl, hfound⟩
    obtain ⟨p, hp, hname⟩ := List.mem_map.mp (hkeys.mpr hfound)
    rwa [← hshown hp hname, ← hname]

instance : Std.Total Costlier := ⟨fun a b => le_total b.2 a.2⟩

instance : IsTrans (String × Rat) Costlier := ⟨fun _ _ _ hab hbc => hbc.trans hab⟩

/-- The dearest types come first, and what is left out is not dearer than what is shown. -/
theorem topByType_eq (events : List Event) : ∃ top,
    (analyzeEvents events).topByType = (if events = [] then none else some top) ∧
    top.length ≤ 5 ∧ (top.map Prod.fst).Nodup ∧ top.Pairwise Costlier ∧
    (∀ p ∈ top, p.2 = costOfType events p.1) ∧
    ∀ e ∈ events, (∃ p ∈ top, p.1 = e.eventType) ∨
      top.length = 5 ∧ ∀ p ∈ top, costOfType events e.eventType ≤ p.2 := by
  refine ⟨((byType events).insertionSort Costlier).take 5, ?_, ?_⟩
  · rw [analyzeEvents]
    split <;> rfl
  have hperm := List.perm_insertionSort Costlier (byType events)
  have hsorted : ((byType events).insertionSort Costlier).Pairwise Costlier :=
    List.pairwise_insertionSort _ _
  generalize (byType events).insertionSort Costlier = sorted at hperm hsorted
  have hnodup := (hperm.map Prod.fst).nodup_iff.mpr (nodup_byType events)
  have hsplit := List.take_append_drop 5 sorted
  refine ⟨List.length_take_le _ _, hnodup.sublist ((List.take_sublist _ _).map _),
    hsorted.sublist (List.take_sublist _ _), fun p hp => ?_, fun e he => ?_⟩
  · exact (mem_byType.mp (hperm.mem_iff.mp (List.mem_of_mem_take hp))).1
  · have hmem : (e.eventType, costOfType events e.eventType) ∈ sorted :=
      hperm.mem_iff.mpr (mem_byType.mpr ⟨rfl, e, he, rfl⟩)
    rw [← hsplit] at hmem hsorted
    rcases List.mem_append.mp hmem with hmem | hmem
    · exact .inl ⟨_, hmem, rfl⟩
    · refine .inr ⟨?_, fun p hp => (List.pairwise_append.mp hsorted).2.2 p hp _ hmem⟩
      have hlength := List.length_pos_of_mem hmem
      rw [List.length_drop] at hlength
      rw [List.length_take]
      omega

end TemporalCostDebugger

end Prodinamik.Budget
