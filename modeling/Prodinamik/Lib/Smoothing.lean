import Mathlib.Algebra.Order.Field.Basic
import Mathlib.Algebra.Order.Ring.Abs
import Mathlib.Tactic.FieldSimp
import Mathlib.Tactic.Linarith
import Mathlib.Tactic.Positivity
import Mathlib.Tactic.Ring

namespace Prodinamik.Lib.Smoothing

section Steps

variable {K : Type} [Field K] (α β : K)

/-- One step of double exponential smoothing: the level follows the values, and the trend
follows the level. -/
def smooth (s : K × K) (y : K) : K × K :=
  let level := α * y + (1 - α) * (s.1 + s.2)
  (level, β * (level - s.1) + (1 - β) * s.2)

/-- A line goes on as it is, and what is off it is smoothed by itself. -/
theorem smooth_line (a y d : K) (s : K × K) :
    smooth α β (y + s.1, a + s.2) (y + a + d) =
      (y + a + (smooth α β s d).1, a + (smooth α β s d).2) := by
  ext
  · simp only [smooth]
    ring
  · simp only [smooth]
    ring

/-- The area between a state and the one that follows it without a new value. -/
def form (s : K × K) : K :=
  α * β * s.1 ^ 2 - α * (1 - β) * s.1 * s.2 + (1 - α) * s.2 ^ 2

theorem form_smooth_zero (s : K × K) : form α β (smooth α β s 0) = (1 - α) * form α β s := by
  simp only [form, smooth]
  ring

end Steps

variable {K : Type} [Field K] [LinearOrder K] [IsStrictOrderedRing K] {α β : K}

/-- The trend swings: it follows the level too slowly, and comes back from beyond. -/
structure Swings (α β : K) : Prop where
  level_pos : 0 < α
  level_lt : α < 1
  trend_pos : 0 < β
  swings : α * (1 - β) ^ 2 < 4 * β * (1 - α)

/-- What a form says of the value some steps on. -/
theorem sq_le_form (s : K × K) (h : K) :
    α * (4 * β * (1 - α) - α * (1 - β) ^ 2) * (s.1 + h * s.2) ^ 2 ≤
      4 * (1 - α + α * (1 - β) * h + α * β * h ^ 2) * form α β s := by
  have hsq := sq_nonneg
    ((2 * (α * β) * h + α * (1 - β)) * s.1 - (α * (1 - β) * h + 2 * (1 - α)) * s.2)
  rw [form]
  linarith

namespace Swings

variable (hs : Swings α β)

include hs

theorem form_nonneg (s : K × K) : 0 ≤ form α β s := by
  have hpos : 0 < α * β := mul_pos hs.level_pos hs.trend_pos
  have hgap : 0 < α * (4 * β * (1 - α) - α * (1 - β) ^ 2) :=
    mul_pos hs.level_pos (sub_pos.mpr hs.swings)
  have hsq : 4 * (α * β) * form α β s = (2 * (α * β) * s.1 - α * (1 - β) * s.2) ^ 2 +
      α * (4 * β * (1 - α) - α * (1 - β) ^ 2) * s.2 ^ 2 := by
    rw [form]
    ring
  have hfour : 0 < 4 * (α * β) := by positivity
  refine nonneg_of_mul_nonneg_right ?_ hfour
  rw [hsq]
  positivity

/-- The new value is weighed against the state that is there. -/
theorem form_smooth_le {δ : K} (hδ : 0 < δ) (s : K × K) (y : K) :
    form α β (smooth α β s y) ≤
      (1 + δ) * (1 - α) * form α β s + (1 + 1 / δ) * (α * β) ^ 2 * y ^ 2 := by
  have hmixed := hs.form_nonneg (δ * (smooth α β s 0).1 - α * y, δ * (smooth α β s 0).2 - α * β * y)
  have hexpand : δ * ((1 + δ) * form α β (smooth α β s 0) + (1 + 1 / δ) * (α * β) ^ 2 * y ^ 2 -
      form α β (smooth α β s y)) =
        form α β (δ * (smooth α β s 0).1 - α * y, δ * (smooth α β s 0).2 - α * β * y) := by
    simp only [form, smooth]
    field_simp
    ring
  rw [← hexpand, form_smooth_zero] at hmixed
  have hle := nonneg_of_mul_nonneg_right hmixed hδ
  linarith

/-- Whatever the values, as long as they are bounded: the state is bounded, and what it was
at first is forgotten. -/
theorem form_foldl_le {δ ρ c ε : K} (hδ : 0 < δ) (hρ : (1 + δ) * (1 - α) = ρ) (hρ0 : 0 ≤ ρ)
    (hc : (1 + 1 / δ) * (α * β) ^ 2 = c * (1 - ρ)) {ys : List K} (hys : ∀ y ∈ ys, |y| ≤ ε)
    (s : K × K) :
    form α β (ys.foldl (smooth α β) s) ≤ ρ ^ ys.length * (form α β s - c * ε ^ 2) + c * ε ^ 2 := by
  induction ys generalizing s with
  | nil => simp
  | cons y ys ih =>
      have hrest := ih (fun y' hy' => hys y' (List.mem_cons_of_mem _ hy')) (smooth α β s y)
      have hstep := hs.form_smooth_le hδ s y
      have hy : y ^ 2 ≤ ε ^ 2 := sq_le_sq' (abs_le.mp (hys y List.mem_cons_self)).1
        (abs_le.mp (hys y List.mem_cons_self)).2
      have hnoise : 0 ≤ c * (1 - ρ) := by
        rw [← hc]
        positivity
      rw [hρ, hc] at hstep
      have hbound : form α β (smooth α β s y) - c * ε ^ 2 ≤ ρ * (form α β s - c * ε ^ 2) := by
        have := mul_le_mul_of_nonneg_left hy hnoise
        linarith
      have hpow := mul_le_mul_of_nonneg_left hbound (pow_nonneg hρ0 ys.length)
      rw [List.foldl_cons, List.length_cons, pow_succ]
      linarith

end Swings

omit [IsStrictOrderedRing K] in
/-- Values near a line are smoothed to the line and to what their deviations are smoothed to. -/
theorem exists_foldl_line {a y ε : K} {ys : List K}
    (hline : ∀ (i : Nat) v, ys[i]? = some v → |v - (y + a * (i + 1))| ≤ ε) (s : K × K) :
    ∃ ds : List K, ds.length = ys.length ∧ (∀ d ∈ ds, |d| ≤ ε) ∧
      ys.foldl (smooth α β) (y + s.1, a + s.2) =
        (y + a * ys.length + (ds.foldl (smooth α β) s).1, a + (ds.foldl (smooth α β) s).2) := by
  induction ys generalizing y s with
  | nil => exact ⟨[], rfl, fun d hd => absurd hd List.not_mem_nil, by simp⟩
  | cons v ys ih =>
      obtain ⟨d, rfl⟩ : ∃ d, v = y + a + d := ⟨v - (y + a), by ring⟩
      have hd : |d| ≤ ε := by simpa using hline 0 (y + a + d) rfl
      have hrest : ∀ (i : Nat) v, ys[i]? = some v → |v - (y + a + a * (i + 1))| ≤ ε := by
        intro i v hv
        have := hline (i + 1) v hv
        push_cast at this
        rwa [show y + a * (i + 1 + 1) = y + a + a * (i + 1) by ring] at this
      obtain ⟨ds, hlength, hds, hfold⟩ := ih hrest (smooth α β s d)
      refine ⟨d :: ds, congrArg (· + 1) hlength, List.forall_mem_cons.mpr ⟨hd, hds⟩, ?_⟩
      rw [List.foldl_cons, List.foldl_cons, smooth_line, hfold, List.length_cons]
      push_cast
      ring_nf

end Prodinamik.Lib.Smoothing
