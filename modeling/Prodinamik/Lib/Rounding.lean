import Mathlib.Data.List.Basic
import Mathlib.Data.Rat.Floor
import Mathlib.Tactic.Linarith
import Mathlib.Tactic.Positivity
import Mathlib.Tactic.Ring

namespace Prodinamik.Lib.Rounding

/-- The nearest integer, and the even one of two. -/
def roundEven (x : Rat) : Int :=
  if x - ⌊x⌋ < 1 / 2 then ⌊x⌋ else if 1 / 2 < x - ⌊x⌋ then ⌊x⌋ + 1 else ⌊x⌋ + ⌊x⌋ % 2

def roundTo (digits : Nat) (x : Rat) : Rat := roundEven (x * 10 ^ digits) / 10 ^ digits

variable {x : Rat} {k : Int}

theorem roundEven_le_iff (hk : k % 2 = 0) : roundEven x ≤ k ↔ x ≤ k + 1 / 2 := by
  have hfloor := Int.floor_le x
  rw [roundEven]
  split
  · rename_i hlow
    constructor
    · intro hle
      have hcast : (⌊x⌋ : Rat) ≤ k := by exact_mod_cast hle
      linarith
    · intro hle
      have hlt : (⌊x⌋ : Rat) < (k + 1 : Int) := by
        push_cast
        linarith
      exact Int.lt_add_one_iff.mp (by exact_mod_cast hlt)
  · rename_i hlow
    split
    · rename_i hhigh
      constructor
      · intro hle
        have hcast : ((⌊x⌋ + 1 : Int) : Rat) ≤ k := by exact_mod_cast hle
        have hlt := Int.lt_floor_add_one x
        push_cast at hcast
        linarith
      · intro hle
        have hlt : (⌊x⌋ : Rat) < k := by linarith
        have hint : ⌊x⌋ < k := by exact_mod_cast hlt
        omega
    · rename_i hhigh
      have htie : x = ⌊x⌋ + 1 / 2 := by linarith
      have hiff : x ≤ k + 1 / 2 ↔ ⌊x⌋ ≤ k := by
        constructor
        · intro hle
          have hcast : (⌊x⌋ : Rat) ≤ k := by linarith
          exact_mod_cast hcast
        · intro hle
          have hcast : (⌊x⌋ : Rat) ≤ k := by exact_mod_cast hle
          linarith
      rw [hiff]
      omega

theorem le_roundEven_iff (hk : k % 2 = 0) : k ≤ roundEven x ↔ k - 1 / 2 ≤ x := by
  have hfloor := Int.lt_floor_add_one x
  rw [roundEven]
  split
  · rename_i hlow
    constructor
    · intro hle
      have hcast : (k : Rat) ≤ ⌊x⌋ := by exact_mod_cast hle
      have hfloor' := Int.floor_le x
      linarith
    · intro hle
      have hlt : (k : Rat) < (⌊x⌋ + 1 : Int) := by
        push_cast
        linarith
      exact Int.lt_add_one_iff.mp (by exact_mod_cast hlt)
  · rename_i hlow
    split
    · rename_i hhigh
      constructor
      · intro hle
        have hcast : (k : Rat) ≤ (⌊x⌋ + 1 : Int) := by exact_mod_cast hle
        push_cast at hcast
        linarith
      · intro hle
        have hlt : (k : Rat) < (⌊x⌋ + 2 : Int) := by
          push_cast
          linarith
        have hint : k < ⌊x⌋ + 2 := by exact_mod_cast hlt
        omega
    · rename_i hhigh
      have htie : x = ⌊x⌋ + 1 / 2 := by linarith
      have hiff : k - 1 / 2 ≤ x ↔ k ≤ ⌊x⌋ + 1 := by
        constructor
        · intro hle
          have hcast : (k : Rat) ≤ (⌊x⌋ + 1 : Int) := by
            push_cast
            linarith
          exact_mod_cast hcast
        · intro hle
          have hcast : (k : Rat) ≤ (⌊x⌋ + 1 : Int) := by exact_mod_cast hle
          push_cast at hcast
          linarith
      rw [hiff]
      omega

/-- The bounds of a rounded number, at a bound whose last digit is even. -/
theorem roundTo_le_iff (hk : k % 2 = 0) (digits : Nat) :
    roundTo digits x ≤ k / 10 ^ digits ↔ x * 10 ^ digits ≤ k + 1 / 2 := by
  rw [roundTo, div_le_div_iff_of_pos_right (by positivity), Int.cast_le, roundEven_le_iff hk]

theorem le_roundTo_iff (hk : k % 2 = 0) (digits : Nat) :
    k / 10 ^ digits ≤ roundTo digits x ↔ k - 1 / 2 ≤ x * 10 ^ digits := by
  rw [roundTo, div_le_div_iff_of_pos_right (by positivity), Int.cast_le, le_roundEven_iff hk]

end Prodinamik.Lib.Rounding

namespace Prodinamik.Lib.Decimal

/-- The last w decimal digits of a number, with leading zeros. -/
def pad : Nat → Nat → List Char
  | 0, _ => []
  | w + 1, n => pad w (n / 10) ++ [(n % 10).digitChar]

@[simp] theorem pad_length (w n : Nat) : (pad w n).length = w := by
  induction w generalizing n with
  | zero => rfl
  | succ w ih => rw [pad, List.length_append, ih, List.length_singleton]

theorem digitChar_lt {a b : Nat} (ha : a < 10) (hb : b < 10) :
    a.digitChar < b.digitChar ↔ a < b := by
  have hall : ∀ a < 10, ∀ b < 10, (a.digitChar < b.digitChar ↔ a < b) := by decide
  exact hall a ha b hb

theorem digitChar_inj {a b : Nat} (ha : a < 10) (hb : b < 10) :
    a.digitChar = b.digitChar ↔ a = b := by
  have hall : ∀ a < 10, ∀ b < 10, (a.digitChar = b.digitChar ↔ a = b) := by decide
  exact hall a ha b hb

theorem mem_pad {w n : Nat} {c : Char} (h : c ∈ pad w n) : ∃ k < 10, c = k.digitChar := by
  induction w generalizing n with
  | zero => cases h
  | succ w ih =>
      rw [pad, List.mem_append, List.mem_singleton] at h
      obtain hrest | rfl := h
      · exact ih hrest
      · exact ⟨n % 10, Nat.mod_lt _ (by decide), rfl⟩

theorem not_mem_pad {c : Char} (h : ∀ k < 10, c ≠ k.digitChar) (w n : Nat) : c ∉ pad w n := by
  intro hmem
  obtain ⟨k, hk, heq⟩ := mem_pad hmem
  exact h k hk heq

theorem pad_zero (w : Nat) : pad w 0 = List.replicate w '0' := by
  induction w with
  | zero => rfl
  | succ w ih =>
      rw [pad, ih, List.replicate_succ']
      rfl

theorem leftpad_concat (w : Nat) (s : List Char) (c : Char) :
    (s ++ [c]).leftpad (w + 1) '0' = s.leftpad w '0' ++ [c] := by
  rw [List.leftpad, List.leftpad, List.length_append, List.length_singleton,
    Nat.add_sub_add_right, List.append_assoc]

/-- A number written to a width that it fits. -/
theorem leftpad_toDigits {w n : Nat} (h : n < 10 ^ (w + 1)) :
    (Nat.toDigits 10 n).leftpad (w + 1) '0' = pad (w + 1) n := by
  induction w generalizing n with
  | zero =>
      have hn : n < 10 := by omega
      rw [Nat.toDigits_of_lt_base hn, pad, pad, Nat.mod_eq_of_lt hn]
      rfl
  | succ w ih =>
      by_cases hn : n < 10
      · rw [Nat.toDigits_of_lt_base hn, pad, Nat.mod_eq_of_lt hn, Nat.div_eq_of_lt hn, pad_zero,
          ← List.nil_append [n.digitChar], leftpad_concat, List.leftpad, List.append_nil,
          List.nil_append]
        rfl
      · have hpow : 10 ^ (w + 1 + 1) = 10 * 10 ^ (w + 1) := by ring
        rw [Nat.toDigits_of_base_le (by decide) (by omega), leftpad_concat, ih (by omega)]
        rfl

theorem append_lt_append_left (r s t : List Char) : r ++ s < r ++ t ↔ s < t := by
  induction r with
  | nil => rfl
  | cons c r ih =>
      rw [List.cons_append, List.cons_append, List.cons_lt_cons_iff, ih]
      simp

theorem cons_lt_cons_self (c : Char) (s t : List Char) : c :: s < c :: t ↔ s < t :=
  append_lt_append_left [c] s t

/-- Numbers of one width are in order when their digits are. -/
theorem pad_append_lt {w a b : Nat} (ha : a < 10 ^ w) (hb : b < 10 ^ w) (s t : List Char) :
    pad w a ++ s < pad w b ++ t ↔ a < b ∨ a = b ∧ s < t := by
  induction w generalizing a b s t with
  | zero =>
      have ha0 : a = 0 := by omega
      have hb0 : b = 0 := by omega
      simp [pad, ha0, hb0]
  | succ w ih =>
      have hpow : 10 ^ (w + 1) = 10 * 10 ^ w := by ring
      rw [pad, pad, List.append_assoc, List.append_assoc, List.singleton_append,
        List.singleton_append, ih (by omega) (by omega), List.cons_lt_cons_iff,
        digitChar_lt (by omega) (by omega), digitChar_inj (by omega) (by omega)]
      constructor
      · rintro (hlt | ⟨heq, hlt | ⟨heq', hst⟩⟩)
        · exact Or.inl (by omega)
        · exact Or.inl (by omega)
        · exact Or.inr ⟨by omega, hst⟩
      · rintro (hlt | ⟨rfl, hst⟩)
        · by_cases htens : a / 10 < b / 10
          · exact Or.inl htens
          · exact Or.inr ⟨by omega, Or.inl (by omega)⟩
        · exact Or.inr ⟨rfl, Or.inr ⟨rfl, hst⟩⟩

end Prodinamik.Lib.Decimal
