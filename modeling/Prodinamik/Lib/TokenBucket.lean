import Mathlib.Algebra.Order.Field.Basic
import Mathlib.Tactic.Linarith
import Mathlib.Tactic.Ring

namespace Prodinamik.Lib.TokenBucket

variable {K : Type} [Field K] [LinearOrder K]

/-- The tokens in a bucket when it was last looked at. -/
structure Level (K : Type) where
  tokens : K
  last : K

/-- Something that is wanted at a time. -/
structure Demand (K : Type) where
  time : K
  cost : K

namespace Level

/-- The tokens at a time: the bucket fills at a steady rate up to its burst. -/
def refilled (rate burst : K) (b : Level K) (time : K) : K :=
  min burst (b.tokens + (time - b.last) * rate)

/-- A demand is met in full or not at all. -/
def take (rate burst : K) (b : Level K) (d : Demand K) : Bool × Level K :=
  if d.cost ≤ b.refilled rate burst d.time then (true, ⟨b.refilled rate burst d.time - d.cost, d.time⟩)
  else (false, ⟨b.refilled rate burst d.time, d.time⟩)

/-- What the demands between two times were given. -/
def spent (rate burst start stop : K) : Level K → List (Demand K) → K
  | _, [] => 0
  | b, d :: ds =>
      (if (b.take rate burst d).1 = true ∧ start ≤ d.time ∧ d.time ≤ stop then d.cost else 0) +
        spent rate burst start stop (b.take rate burst d).2 ds

variable {rate burst : K} {b : Level K}

theorem take_last (d : Demand K) : (b.take rate burst d).2.last = d.time := by
  rw [take]
  split <;> rfl

theorem take_tokens (d : Demand K) : (b.take rate burst d).2.tokens =
    b.refilled rate burst d.time - if (b.take rate burst d).1 = true then d.cost else 0 := by
  rw [take]
  split
  case isTrue => rw [if_pos rfl]
  case isFalse =>
    rw [if_neg Bool.false_ne_true, sub_zero]

theorem refilled_le_burst (time : K) : b.refilled rate burst time ≤ burst := min_le_left _ _

theorem refilled_last : b.refilled rate burst b.last ≤ b.tokens := by
  rw [refilled, sub_self, zero_mul, add_zero]
  exact min_le_right _ _

theorem spent_past {start stop : K} {ds : List (Demand K)} (h : ∀ d ∈ ds, stop < d.time) :
    spent rate burst start stop b ds = 0 := by
  induction ds generalizing b with
  | nil => rfl
  | cons d ds ih =>
      have hd : ¬ d.time ≤ stop := not_le.mpr (h d List.mem_cons_self)
      rw [spent, if_neg fun hin => hd hin.2.2, zero_add]
      exact ih fun x hx => h x (List.mem_cons_of_mem _ hx)

section Ordered

variable [IsStrictOrderedRing K]

/-- The bucket fills at most at the rate. -/
theorem refilled_le_add {s t : K} (hrate : 0 ≤ rate) (hst : s ≤ t) :
    b.refilled rate burst t ≤ b.refilled rate burst s + (t - s) * rate := by
  have hgrow : 0 ≤ (t - s) * rate := mul_nonneg (sub_nonneg.mpr hst) hrate
  rw [refilled, refilled, min_add, le_min_iff]
  constructor
  · exact (min_le_left _ _).trans (le_add_of_nonneg_right hgrow)
  · refine (min_le_right _ _).trans (le_of_eq ?_)
    ring

theorem refilled_nonneg {t : K} (hrate : 0 ≤ rate) (hburst : 0 ≤ burst) (htokens : 0 ≤ b.tokens)
    (ht : b.last ≤ t) : 0 ≤ b.refilled rate burst t :=
  le_min hburst (add_nonneg htokens (mul_nonneg (sub_nonneg.mpr ht) hrate))

theorem take_nonneg {d : Demand K} (hrate : 0 ≤ rate) (hburst : 0 ≤ burst) (htokens : 0 ≤ b.tokens)
    (ht : b.last ≤ d.time) : 0 ≤ (b.take rate burst d).2.tokens := by
  rw [take]
  split
  case isTrue h => exact sub_nonneg.mpr h
  case isFalse => exact refilled_nonneg hrate hburst htokens ht

/-- A bucket holds what is wanted from the time on at which the rate has filled it so far,
if it can hold so much at all. -/
theorem le_refilled_iff {cost t : K} (hrate : 0 < rate) (hcost : cost ≤ burst) :
    cost ≤ b.refilled rate burst t ↔ b.last + (cost - b.tokens) / rate ≤ t := by
  rw [refilled, le_min_iff, and_iff_right hcost, ← le_sub_iff_add_le', div_le_iff₀ hrate,
    sub_le_iff_le_add']

/-- From a time on, no more is given than is there and flows in. -/
theorem spent_le_refilled {start stop s : K} {ds : List (Demand K)} (hrate : 0 ≤ rate)
    (hburst : 0 ≤ burst) (htokens : 0 ≤ b.tokens) (hlast : b.last ≤ s) (hs : s ≤ stop)
    (hcosts : ∀ d ∈ ds, 0 ≤ d.cost) (hfrom : ∀ d ∈ ds, s ≤ d.time)
    (hsorted : ds.Pairwise fun d d' => d.time ≤ d'.time) :
    spent rate burst start stop b ds ≤ b.refilled rate burst s + (stop - s) * rate := by
  induction ds generalizing b s with
  | nil =>
      exact add_nonneg (refilled_nonneg hrate hburst htokens hlast)
        (mul_nonneg (sub_nonneg.mpr hs) hrate)
  | cons d ds ih =>
      have hd : s ≤ d.time := hfrom d List.mem_cons_self
      obtain ⟨hlater, hsorted⟩ := List.pairwise_cons.mp hsorted
      by_cases hstop : d.time ≤ stop
      · have hrest := ih (take_nonneg hrate hburst htokens (hlast.trans hd)) (take_last d).le hstop
          (fun x hx => hcosts x (List.mem_cons_of_mem _ hx)) hlater hsorted
        have hnow : (b.take rate burst d).2.refilled rate burst d.time ≤
            b.refilled rate burst d.time -
              if (b.take rate burst d).1 = true then d.cost else 0 := by
          rw [← take_tokens]
          exact (congrArg _ (take_last d)).ge.trans refilled_last
        have hcount : (if (b.take rate burst d).1 = true ∧ start ≤ d.time ∧ d.time ≤ stop then
            d.cost else 0) ≤ if (b.take rate burst d).1 = true then d.cost else 0 := by
          by_cases hmet : (b.take rate burst d).1 = true
          · rw [if_pos hmet]
            split
            · exact le_rfl
            · exact hcosts d List.mem_cons_self
          · rw [if_neg hmet, if_neg fun hin => hmet hin.1]
        have hgrow : b.refilled rate burst d.time ≤ _ := refilled_le_add hrate hd
        rw [spent]
        linarith
      · have hpast : ∀ x ∈ d :: ds, stop < x.time := by
          intro x hx
          obtain rfl | hx := List.mem_cons.mp hx
          · exact not_le.mp hstop
          · exact (not_le.mp hstop).trans_le (hlater x hx)
        rw [spent_past hpast]
        exact add_nonneg (refilled_nonneg hrate hburst htokens hlast)
          (mul_nonneg (sub_nonneg.mpr hs) hrate)

/-- No more than the burst and what flows in is given in any interval. -/
theorem spent_le {start stop : K} {ds : List (Demand K)} (hrate : 0 ≤ rate) (hburst : 0 ≤ burst)
    (htokens : 0 ≤ b.tokens) (hstart : start ≤ stop) (hcosts : ∀ d ∈ ds, 0 ≤ d.cost)
    (hfrom : ∀ d ∈ ds, b.last ≤ d.time) (hsorted : ds.Pairwise fun d d' => d.time ≤ d'.time) :
    spent rate burst start stop b ds ≤ burst + (stop - start) * rate := by
  have hbound : ∀ s, start ≤ s → ∀ {b' : Level K},
      b'.refilled rate burst s + (stop - s) * rate ≤ burst + (stop - start) * rate := by
    intro s hs b'
    have hflow := mul_le_mul_of_nonneg_right (sub_le_sub_left hs stop) hrate
    exact add_le_add (refilled_le_burst s) hflow
  induction ds generalizing b with
  | nil => exact add_nonneg hburst (mul_nonneg (sub_nonneg.mpr hstart) hrate)
  | cons d ds ih =>
      have hd : b.last ≤ d.time := hfrom d List.mem_cons_self
      have hlater := (List.pairwise_cons.mp hsorted).1
      by_cases hin : start ≤ d.time
      · by_cases hstop : d.time ≤ stop
        · refine (spent_le_refilled hrate hburst htokens hd hstop hcosts ?_ hsorted).trans
            (hbound _ hin)
          intro x hx
          obtain rfl | hx := List.mem_cons.mp hx
          · exact le_rfl
          · exact hlater x hx
        · have hpast : ∀ x ∈ d :: ds, stop < x.time := by
            intro x hx
            obtain rfl | hx := List.mem_cons.mp hx
            · exact not_le.mp hstop
            · exact (not_le.mp hstop).trans_le (hlater x hx)
          rw [spent_past hpast]
          exact add_nonneg hburst (mul_nonneg (sub_nonneg.mpr hstart) hrate)
      · rw [spent, if_neg fun h => hin h.2.1, zero_add]
        refine ih (take_nonneg hrate hburst htokens hd)
          (fun x hx => hcosts x (List.mem_cons_of_mem _ hx)) ?_ (List.pairwise_cons.mp hsorted).2
        rw [take_last]
        exact hlater

end Ordered

end Level

end Prodinamik.Lib.TokenBucket
