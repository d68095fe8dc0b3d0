import Mathlib.Algebra.BigOperators.Group.List.Basic
import Mathlib.Algebra.BigOperators.Ring.List
import Mathlib.Algebra.Order.BigOperators.Group.List
import Mathlib.Algebra.Order.Field.Basic
import Mathlib.Tactic.FieldSimp
import Mathlib.Tactic.Linarith
import Mathlib.Tactic.Positivity
import Mathlib.Tactic.Ring

namespace Prodinamik.Lib.Deviation

variable {K : Type} [Field K] [LinearOrder K] [IsStrictOrderedRing K] {l : List K}

def mean (l : List K) : K := l.sum / l.length

/-- The sum of the squared deviations from the mean. -/
def squares (l : List K) : K := (l.map fun x => (x - mean l) ^ 2).sum

/-- What is more than a distance above the mean. -/
def above (t : K) (l : List K) : List K := l.filter fun x => mean l + t < x

theorem sum_eq_mean_mul (l : List K) : l.sum = mean l * l.length := by
  cases l with
  | nil => simp
  | cons a l =>
      have hlength : ((a :: l).length : K) ≠ 0 := by
        exact_mod_cast (Nat.succ_ne_zero l.length)
      rw [mean, div_mul_cancel₀ _ hlength]

/-- The squared deviations from another value than the mean. -/
theorem sum_sq_add (l : List K) (u : K) :
    (l.map fun x => (x - mean l + u) ^ 2).sum = squares l + l.length * u ^ 2 := by
  have hexpand : ∀ (m : K) (l : List K), (l.map fun x => (x - m + u) ^ 2).sum =
      (l.map fun x => (x - m) ^ 2).sum + 2 * u * (l.sum - m * l.length) + l.length * u ^ 2 := by
    intro m l
    induction l with
    | nil => simp
    | cons a l ih =>
        simp only [List.map_cons, List.sum_cons, ih, List.length_cons]
        push_cast
        ring
  rw [hexpand, ← squares, sum_eq_mean_mul]
  ring

theorem squares_nonneg (l : List K) : 0 ≤ squares l :=
  List.sum_nonneg fun x hx => by
    obtain ⟨y, -, rfl⟩ := List.mem_map.mp hx
    exact sq_nonneg _

theorem eq_mean_of_squares (h : squares l = 0) : ∀ x ∈ l, x = mean l := by
  intro x hx
  have hle := List.single_le_sum (l := l.map fun x => (x - mean l) ^ 2) (fun y hy => by
    obtain ⟨z, -, rfl⟩ := List.mem_map.mp hy
    exact sq_nonneg _) _ (List.mem_map_of_mem hx)
  rw [← squares, h] at hle
  exact sub_eq_zero.mp (pow_eq_zero_iff two_ne_zero |>.mp (le_antisymm hle (sq_nonneg _)))

/-- The inequality of Cantelli: only few can be far above the mean. The deviations are
counted from a value below it, which is chosen so that the bound is the best one. -/
theorem cantelli {t : K} (ht : 0 < t) (hne : above t l ≠ []) :
    (above t l).length * (squares l + l.length * t ^ 2) < l.length * squares l := by
  have hlength : (0 : K) < l.length := by
    rw [Nat.cast_pos, List.length_pos_iff]
    rintro rfl
    exact hne rfl
  have hnt : 0 < l.length * t := mul_pos hlength ht
  obtain ⟨u, hu⟩ : ∃ u, u * (l.length * t) = squares l := ⟨_, div_mul_cancel₀ _ hnt.ne'⟩
  have hu0 : 0 ≤ u := nonneg_of_mul_nonneg_left (hu ▸ squares_nonneg l) hnt
  have hfar : ((above t l).map fun _ => (t + u) ^ 2).sum <
      ((above t l).map fun x => (x - mean l + u) ^ 2).sum := by
    refine List.sum_lt_sum_of_ne_nil hne _ _ fun x hx => ?_
    have hx : mean l + t < x := of_decide_eq_true (List.mem_filter.mp hx).2
    refine pow_lt_pow_left₀ ?_ (by positivity) two_ne_zero
    linarith
  have hall : ((above t l).map fun x => (x - mean l + u) ^ 2).sum ≤
      (l.map fun x => (x - mean l + u) ^ 2).sum :=
    (List.filter_sublist.map _).sum_le_sum fun y hy => by
      obtain ⟨x, -, rfl⟩ := List.mem_map.mp hy
      exact sq_nonneg _
  have hlt : (above t l).length * (t + u) ^ 2 < l.length * u * (t + u) := by
    calc ((above t l).length : K) * (t + u) ^ 2
        = ((above t l).map fun _ => (t + u) ^ 2).sum := by simp
      _ < squares l + l.length * u ^ 2 := by
          rw [← sum_sq_add]
          exact hfar.trans_le hall
      _ = l.length * u * (t + u) := by
          rw [← hu]
          ring
  have hcancel : (above t l).length * (t + u) < l.length * u := by
    refine lt_of_mul_lt_mul_right ?_ (by positivity : 0 ≤ t + u)
    linarith
  calc ((above t l).length : K) * (squares l + l.length * t ^ 2)
      = (above t l).length * (t + u) * (l.length * t) := by
        rw [← hu]
        ring
    _ < l.length * u * (l.length * t) := mul_lt_mul_of_pos_right hcancel hnt
    _ = l.length * squares l := by
        rw [← hu]
        ring

section Map

variable {L : Type} [Field L] (f : K →+* L)

theorem mean_map (l : List K) : mean (l.map f) = f (mean l) := by
  rw [mean, mean, map_div₀, map_list_sum, List.length_map, map_natCast]

theorem squares_map (l : List K) : squares (l.map f) = f (squares l) := by
  rw [squares, squares, map_list_sum, mean_map, List.map_map, List.map_map]
  congr 1
  exact List.map_congr_left fun x _ => by simp

end Map

/-- Ones and zeros. -/
def ones (k m : Nat) : List K := List.replicate k 1 ++ List.replicate m 0

theorem mean_ones (k m : Nat) : mean (ones k m : List K) = k / (k + m) := by
  simp [mean, ones]

theorem squares_ones {k m : Nat} (h : 0 < k + m) : squares (ones k m : List K) = k * m / (k + m) := by
  have hpos : ((k : K) + m) ≠ 0 := by exact_mod_cast h.ne'
  rw [squares, mean_ones, ones]
  simp only [List.map_append, List.map_replicate, List.sum_append, List.sum_replicate, nsmul_eq_mul]
  field_simp
  ring

end Prodinamik.Lib.Deviation

namespace Prodinamik.Lib.LeastSquares

open Deviation

variable {K : Type} [Field K] [LinearOrder K] [IsStrictOrderedRing K] {ps : List (K × K)}

/-- The squared distances of points from a line, along the second axis. -/
def errors (a b : K) (ps : List (K × K)) : K := (ps.map fun p => (p.2 - (a * p.1 + b)) ^ 2).sum

def products (ps : List (K × K)) : K :=
  (ps.map fun p => (p.1 - mean (ps.map Prod.fst)) * (p.2 - mean (ps.map Prod.snd))).sum

def bestSlope (ps : List (K × K)) : K := products ps / squares (ps.map Prod.fst)

def bestIntercept (ps : List (K × K)) : K :=
  mean (ps.map Prod.snd) - bestSlope ps * mean (ps.map Prod.fst)

theorem errors_nonneg (a b : K) (ps : List (K × K)) : 0 ≤ errors a b ps :=
  List.sum_nonneg fun x hx => by
    obtain ⟨p, -, rfl⟩ := List.mem_map.mp hx
    exact sq_nonneg _

/-- The errors of a line, by how it lies to the middle of the points. -/
theorem errors_eq (a b : K) (ps : List (K × K)) :
    errors a b ps = squares (ps.map Prod.snd) - 2 * a * products ps +
      a ^ 2 * squares (ps.map Prod.fst) +
        ps.length * (mean (ps.map Prod.snd) - (a * mean (ps.map Prod.fst) + b)) ^ 2 := by
  have hexpand : ∀ (m k : K) (ps : List (K × K)), (ps.map fun p => (p.2 - (a * p.1 + b)) ^ 2).sum =
      ((ps.map Prod.snd).map fun y => (y - k) ^ 2).sum -
        2 * a * (ps.map fun p => (p.1 - m) * (p.2 - k)).sum +
        a ^ 2 * ((ps.map Prod.fst).map fun x => (x - m) ^ 2).sum +
        2 * (k - (a * m + b)) * (((ps.map Prod.snd).sum - k * (ps.map Prod.snd).length) -
          a * ((ps.map Prod.fst).sum - m * (ps.map Prod.fst).length)) +
        ps.length * (k - (a * m + b)) ^ 2 := by
    intro m k ps
    induction ps with
    | nil => simp
    | cons p ps ih =>
        simp only [List.map_cons, List.sum_cons, ih, List.length_cons]
        push_cast
        ring
  rw [errors, hexpand (mean (ps.map Prod.fst)) (mean (ps.map Prod.snd)), ← sum_eq_mean_mul,
    ← sum_eq_mean_mul, sub_self, sub_self, ← squares, ← squares, ← products]
  ring

variable (hx : squares (ps.map Prod.fst) ≠ 0)

include hx

/-- What a line is worse than the one through the middle of the points. -/
theorem errors_eq_add (a b : K) : errors a b ps = errors (bestSlope ps) (bestIntercept ps) ps +
    (squares (ps.map Prod.fst) * (a - bestSlope ps) ^ 2 +
      ps.length * (mean (ps.map Prod.snd) - (a * mean (ps.map Prod.fst) + b)) ^ 2) := by
  have hslope : products ps = bestSlope ps * squares (ps.map Prod.fst) :=
    (div_mul_cancel₀ _ hx).symm
  rw [errors_eq, errors_eq (bestSlope ps), hslope, bestIntercept]
  ring

theorem least (a b : K) : errors (bestSlope ps) (bestIntercept ps) ps ≤ errors a b ps := by
  rw [errors_eq_add hx a b]
  have hsquares := squares_nonneg (ps.map Prod.fst)
  exact le_add_of_nonneg_right (by positivity)

/-- No other line is as good. -/
theorem eq_of_errors_le {a b : K}
    (h : errors a b ps ≤ errors (bestSlope ps) (bestIntercept ps) ps) :
    a = bestSlope ps ∧ b = bestIntercept ps := by
  have hsquares : 0 < squares (ps.map Prod.fst) := (squares_nonneg _).lt_of_ne' hx
  have hlength : (0 : K) < ps.length := by
    rw [Nat.cast_pos, List.length_pos_iff]
    rintro rfl
    exact hx (by simp [squares])
  rw [errors_eq_add hx a b] at h
  have hsum := le_antisymm (add_le_iff_nonpos_right _ |>.mp h) (by positivity)
  obtain ⟨hslope, hmiddle⟩ := (add_eq_zero_iff_of_nonneg (by positivity) (by positivity)).mp hsum
  have ha : a = bestSlope ps :=
    sub_eq_zero.mp ((pow_eq_zero_iff two_ne_zero).mp ((mul_eq_zero.mp hslope).resolve_left hx))
  have hb := (pow_eq_zero_iff two_ne_zero).mp ((mul_eq_zero.mp hmiddle).resolve_left hlength.ne')
  refine ⟨ha, ?_⟩
  rw [bestIntercept, ← ha]
  exact (sub_eq_iff_eq_add'.mpr (sub_eq_zero.mp hb)).symm

/-- The best line is at least as good as a level one. -/
theorem errors_le_squares :
    errors (bestSlope ps) (bestIntercept ps) ps ≤ squares (ps.map Prod.snd) := by
  have hlevel := least hx 0 (mean (ps.map Prod.snd))
  rw [errors_eq 0] at hlevel
  simpa using hlevel

end Prodinamik.Lib.LeastSquares
