import Mathlib.Data.List.Basic
import Mathlib.Order.MinMax

namespace Prodinamik.Lib.PyList

variable {α : Type}

/-- Python's l[i]: negative indices count from the end, and none stands for
the IndexError. -/
def get (l : List α) (i : Int) : Option α :=
  if 0 ≤ i then l[i.toNat]? else if 0 ≤ i + l.length then l[(i + l.length).toNat]? else none

/-- Python's l[:i]. -/
def slice (l : List α) (i : Int) : List α :=
  if 0 ≤ i then l.take i.toNat else l.take (i + l.length).toNat

/-- Python's l[i:]. -/
def sliceFrom (l : List α) (i : Int) : List α :=
  if 0 ≤ i then l.drop i.toNat else l.drop (i + l.length).toNat

theorem get_natCast (l : List α) (i : Nat) : get l (i : Int) = l[i]? := by
  simp [get]

theorem get_of_nonneg (l : List α) {i : Int} (h : 0 ≤ i) : get l i = l[i.toNat]? := if_pos h

theorem slice_of_nonneg (l : List α) {i : Int} (h : 0 ≤ i) : slice l i = l.take i.toNat := if_pos h

/-- How many elements have a property, when one of them is changed. -/
theorem countP_modify {l : List α} {i : Nat} {a : α} (h : l[i]? = some a) (f : α → α)
    (p : α → Bool) :
    (l.modify i f).countP p + (if p a then 1 else 0) = l.countP p + if p (f a) then 1 else 0 := by
  induction l generalizing i with
  | nil => cases h
  | cons b l ih =>
      cases i with
      | zero =>
          obtain rfl := Option.some.inj h
          rw [List.modify_zero_cons, List.countP_cons, List.countP_cons]
          omega
      | succ i =>
          have hrest := ih h
          rw [List.modify_succ_cons, List.countP_cons, List.countP_cons]
          omega

/-! max() of a list with a first element. -/

theorem foldl_max_mem [LinearOrder α] (first : α) (rest : List α) :
    rest.foldl max first ∈ first :: rest := by
  induction rest generalizing first with
  | nil => exact List.mem_cons_self
  | cons x rest ih =>
      have h := ih (max first x)
      rw [List.foldl_cons]
      obtain heq | hmem := List.mem_cons.mp h
      · rw [heq]
        obtain hmax | hmax := max_choice first x
        · rw [hmax]
          exact List.mem_cons_self
        · rw [hmax]
          exact List.mem_cons_of_mem _ List.mem_cons_self
      · exact List.mem_cons_of_mem _ (List.mem_cons_of_mem _ hmem)

theorem le_foldl_max [LinearOrder α] {first x : α} {rest : List α}
    (h : x ∈ first :: rest) : x ≤ rest.foldl max first := by
  induction rest generalizing first x with
  | nil => exact le_of_eq (List.mem_singleton.mp h)
  | cons y rest ih =>
      rw [List.foldl_cons]
      have hle : max first y ≤ rest.foldl max (max first y) := ih List.mem_cons_self
      obtain rfl | hrest := List.mem_cons.mp h
      · exact le_trans (le_max_left _ _) hle
      · obtain rfl | hmem := List.mem_cons.mp hrest
        · exact le_trans (le_max_right _ _) hle
        · exact ih (List.mem_cons_of_mem _ hmem)

theorem foldl_min_mem [LinearOrder α] (first : α) (rest : List α) :
    rest.foldl min first ∈ first :: rest := foldl_max_mem (α := αᵒᵈ) first rest

theorem foldl_min_le [LinearOrder α] {first x : α} {rest : List α} (h : x ∈ first :: rest) :
    rest.foldl min first ≤ x := le_foldl_max (α := αᵒᵈ) h

/-! A log that is cut down to its last entries when it has grown too long. -/

section Trim

variable {limit keep : Nat}

/-- So many of n entries are still there. -/
def kept (limit keep n : Nat) : Nat :=
  if n ≤ limit then n else keep + (n - (limit + 1)) % (limit + 1 - keep)

def pushTrim (limit keep : Nat) (log : List α) (a : α) : List α :=
  if limit < (log ++ [a]).length then sliceFrom (log ++ [a]) (-keep) else log ++ [a]

theorem kept_of_le {n : Nat} (h : n ≤ limit) : kept limit keep n = n := if_pos h

theorem kept_of_lt (d : Nat) :
    kept limit keep (limit + 1 + d) = keep + d % (limit + 1 - keep) := by
  rw [kept, if_neg (by omega), Nat.add_sub_cancel_left]

theorem kept_le (h : keep ≤ limit) (n : Nat) : kept limit keep n ≤ n := by
  rw [kept]
  split
  · exact le_refl n
  · have hmod := Nat.mod_le (n - (limit + 1)) (limit + 1 - keep)
    omega

theorem kept_succ (h : keep ≤ limit) (n : Nat) :
    kept limit keep (n + 1) =
      if limit < kept limit keep n + 1 then keep else kept limit keep n + 1 := by
  rcases lt_trichotomy n limit with hlt | rfl | hgt
  · rw [kept_of_le hlt, kept_of_le hlt.le, if_neg (Nat.not_lt.mpr hlt)]
  · have hfirst := @kept_of_lt n keep 0
    rw [Nat.add_zero, Nat.zero_mod] at hfirst
    rw [hfirst, Nat.add_zero, kept_of_le le_rfl, if_pos (Nat.lt_succ_self n)]
  · obtain ⟨d, rfl⟩ := Nat.exists_eq_add_of_le hgt
    have hlt := @Nat.mod_lt d (limit + 1 - keep) (by omega)
    rw [Nat.succ_eq_add_one, Nat.add_assoc (limit + 1) d 1, kept_of_lt, kept_of_lt]
    by_cases hlast : d % (limit + 1 - keep) + 1 = limit + 1 - keep
    · have hzero : (d + 1) % (limit + 1 - keep) = 0 := by
        rw [← Nat.mod_add_mod, hlast, Nat.mod_self]
      have hfull : limit < keep + d % (limit + 1 - keep) + 1 := by omega
      rw [hzero, if_pos hfull, Nat.add_zero]
    · have hnext : (d + 1) % (limit + 1 - keep) = d % (limit + 1 - keep) + 1 := by
        rw [← Nat.mod_add_mod, Nat.mod_eq_of_lt (by omega)]
      have hroom : ¬ limit < keep + d % (limit + 1 - keep) + 1 := by omega
      rw [hnext, if_neg hroom, Nat.add_assoc]

theorem sliceFrom_neg (l : List α) {n : Nat} (hn : 0 < n) :
    sliceFrom l (-n) = l.drop (l.length - n) := by
  have hneg : ¬ (0 : Int) ≤ -n := by omega
  have hplace : (-(n : Int) + l.length).toNat = l.length - n := by omega
  rw [sliceFrom, if_neg hneg, hplace]

/-- What is in the log is the end of all that has been put in. -/
theorem pushTrim_drop (hkeep : 0 < keep) (h : keep ≤ limit) (l : List α) (a : α) :
    pushTrim limit keep (l.drop (l.length - kept limit keep l.length)) a =
      (l ++ [a]).drop (l.length + 1 - kept limit keep (l.length + 1)) := by
  have hle := kept_le h l.length
  have happend : l.drop (l.length - kept limit keep l.length) ++ [a] =
      (l ++ [a]).drop (l.length - kept limit keep l.length) :=
    (List.drop_append_of_le_length (Nat.sub_le _ _)).symm
  have hlength : ((l ++ [a]).drop (l.length - kept limit keep l.length)).length =
      kept limit keep l.length + 1 := by
    rw [List.length_drop, List.length_append, List.length_singleton]
    omega
  rw [pushTrim, happend, hlength, kept_succ h]
  split
  case isTrue hfull =>
    rw [sliceFrom_neg _ hkeep, hlength, List.drop_drop]
    congr 1
    omega
  case isFalse =>
    congr 1
    omega

end Trim

end Prodinamik.Lib.PyList
