import Mathlib.Data.List.Chain
import Mathlib.Data.List.DropRight

namespace Prodinamik.Lib.Words

variable {α : Type} {p : α → Bool} {d : α}

/-- The longest groups of elements that are not separators. -/
def words (p : α → Bool) (s : List α) : List (List α) :=
  (s.splitOnP p).filter fun w => !w.isEmpty

/-- Words that can be told apart again when d stands between them. -/
structure Apart (d : α) (ws : List (List α)) : Prop where
  ne_nil : ∀ w ∈ ws, w ≠ []
  not_mem : ∀ w ∈ ws, d ∉ w

theorem words_cons_sep {c : α} (hc : p c) (s : List α) : words p (c :: s) = words p s := by
  rw [words, words, List.splitOnP_cons_eq_if_modifyHead, if_pos hc]
  rfl

theorem words_append_sep (xs : List α) {c : α} (hc : p c) (ys : List α) :
    words p (xs ++ c :: ys) = words p xs ++ words p ys := by
  rw [words, words, words, List.splitOnP_append_cons xs ys hc, List.filter_append]

theorem words_of_forall {s : List α} (hs : ∀ c ∈ s, p c) : words p s = [] := by
  induction s with
  | nil => rfl
  | cons c s ih =>
      rw [words_cons_sep (hs c List.mem_cons_self)]
      exact ih fun x hx => hs x (List.mem_cons_of_mem _ hx)

/-- Separators before and after the words do not matter. -/
theorem words_append_left {a : List α} (ha : ∀ c ∈ a, p c) (s : List α) :
    words p (a ++ s) = words p s := by
  induction a with
  | nil => rfl
  | cons c a ih =>
      rw [List.cons_append, words_cons_sep (ha c List.mem_cons_self)]
      exact ih fun x hx => ha x (List.mem_cons_of_mem _ hx)

theorem words_append_right {b : List α} (hb : ∀ c ∈ b, p c) (s : List α) :
    words p (s ++ b) = words p s := by
  cases b with
  | nil => rw [List.append_nil]
  | cons c b =>
      rw [words_append_sep s (hb c List.mem_cons_self),
        words_of_forall fun x hx => hb x (List.mem_cons_of_mem _ hx), List.append_nil]

theorem mem_of_mem_splitOnP {s w : List α} (hw : w ∈ s.splitOnP p) {c : α} (hc : c ∈ w) :
    c ∈ s ∧ p c = false := by
  induction s generalizing w with
  | nil =>
      rw [List.splitOnP_nil, List.mem_singleton] at hw
      subst hw
      exact absurd hc List.not_mem_nil
  | cons x s ih =>
      rw [List.splitOnP_cons_eq_if_modifyHead] at hw
      cases hx : p x with
      | true =>
          rw [if_pos hx] at hw
          obtain rfl | hw := List.mem_cons.mp hw
          · exact absurd hc List.not_mem_nil
          · exact (ih hw hc).imp (List.mem_cons_of_mem _) id
      | false =>
          obtain ⟨h, t, hsplit⟩ := List.exists_cons_of_ne_nil (List.splitOnP_ne_nil p s)
          rw [if_neg (by simp [hx]), hsplit, List.modifyHead_cons] at hw
          obtain rfl | hw := List.mem_cons.mp hw
          · obtain rfl | hc := List.mem_cons.mp hc
            · exact ⟨List.mem_cons_self, hx⟩
            · exact (ih (hsplit ▸ List.mem_cons_self) hc).imp (List.mem_cons_of_mem _) id
          · exact (ih (hsplit ▸ List.mem_cons_of_mem _ hw) hc).imp (List.mem_cons_of_mem _) id

theorem mem_of_mem_words {s w : List α} (hw : w ∈ words p s) {c : α} (hc : c ∈ w) :
    c ∈ s ∧ p c = false :=
  mem_of_mem_splitOnP (List.mem_filter.mp hw).1 hc

theorem words_eq_nil_iff {s : List α} : words p s = [] ↔ ∀ c ∈ s, p c := by
  refine ⟨fun h => ?_, words_of_forall⟩
  induction s with
  | nil => exact fun c hc => absurd hc List.not_mem_nil
  | cons x s ih =>
      cases hx : p x with
      | true =>
          rw [words_cons_sep hx] at h
          exact List.forall_mem_cons.mpr ⟨hx, ih h⟩
      | false =>
          obtain ⟨w, t, hsplit⟩ := List.exists_cons_of_ne_nil (List.splitOnP_ne_nil p s)
          rw [words, List.splitOnP_cons_eq_if_modifyHead, if_neg (by simp [hx]), hsplit,
            List.modifyHead_cons, List.filter_cons_of_pos (by rfl)] at h
          exact absurd h (List.cons_ne_nil _ _)

theorem apart_words (hd : p d) (s : List α) : Apart d (words p s) where
  ne_nil w hw := by
    have h := (List.mem_filter.mp hw).2
    rintro rfl
    exact absurd h Bool.false_ne_true
  not_mem w hw hmem := by
    have h := (mem_of_mem_words hw hmem).2
    rw [hd] at h
    exact absurd h.symm Bool.false_ne_true

theorem isChain_of_not_mem {w : List α} (hw : d ∉ w) :
    w.IsChain fun a b => ¬ (a = d ∧ b = d) := by
  induction w with
  | nil => exact .nil
  | cons c w ih =>
      rw [List.mem_cons, not_or] at hw
      exact (ih hw.2).cons fun y _ hcy => hw.1 hcy.1.symm

theorem mem_intercalate {sep : List α} {ws : List (List α)} {c : α}
    (hc : c ∈ sep.intercalate ws) : c ∈ sep ∨ ∃ w ∈ ws, c ∈ w := by
  induction ws with
  | nil => exact absurd hc List.not_mem_nil
  | cons w ws ih =>
      obtain rfl | hws := eq_or_ne ws []
      · rw [List.intercalate_singleton] at hc
        exact .inr ⟨w, List.mem_cons_self, hc⟩
      · rw [List.intercalate_cons_of_ne_nil hws, List.append_assoc] at hc
        obtain hc | hc := List.mem_append.mp hc
        · exact .inr ⟨w, List.mem_cons_self, hc⟩
        · obtain hc | hc := List.mem_append.mp hc
          · exact .inl hc
          · refine (ih hc).imp id ?_
            rintro ⟨w', hw', hc'⟩
            exact ⟨w', List.mem_cons_of_mem _ hw', hc'⟩

namespace Apart

variable {w : List α} {ws : List (List α)}

theorem tail (h : Apart d (w :: ws)) : Apart d ws where
  ne_nil x hx := h.ne_nil x (List.mem_cons_of_mem _ hx)
  not_mem x hx := h.not_mem x (List.mem_cons_of_mem _ hx)

theorem joined_ne_nil (h : Apart d ws) (hne : ws ≠ []) : [d].intercalate ws ≠ [] := by
  obtain ⟨w, ws, rfl⟩ := List.exists_cons_of_ne_nil hne
  have hw : w ≠ [] := h.ne_nil w List.mem_cons_self
  obtain rfl | hws := eq_or_ne ws []
  · rwa [List.intercalate_singleton]
  · rw [List.intercalate_cons_of_ne_nil hws, List.append_assoc]
    exact List.append_ne_nil_of_left_ne_nil hw _

theorem joined_eq_nil_iff (h : Apart d ws) : [d].intercalate ws = [] ↔ ws = [] := by
  refine ⟨fun hnil => ?_, fun hws => by rw [hws]; rfl⟩
  by_contra hne
  exact h.joined_ne_nil hne hnil

/-- What is joined starts with no separator. -/
theorem head_joined (h : Apart d ws) : ([d].intercalate ws).head? ≠ some d := by
  cases ws with
  | nil => exact (List.head?_nil ▸ Option.some_ne_none d).symm
  | cons w ws =>
      obtain ⟨c, cs, rfl⟩ := List.exists_cons_of_ne_nil (h.ne_nil w List.mem_cons_self)
      rw [List.intercalate_cons_cons_left, List.head?_cons]
      intro hc
      rw [Option.some.inj hc] at h
      exact h.not_mem _ List.mem_cons_self List.mem_cons_self

/-- And it ends with none. -/
theorem getLast_joined (h : Apart d ws) : ([d].intercalate ws).getLast? ≠ some d := by
  induction ws with
  | nil => exact (List.getLast?_nil ▸ Option.some_ne_none d).symm
  | cons w ws ih =>
      obtain rfl | hws := eq_or_ne ws []
      · rw [List.intercalate_singleton]
        exact fun hlast => h.not_mem w List.mem_cons_self (List.mem_of_getLast? hlast)
      · rw [List.intercalate_cons_of_ne_nil hws, List.getLast?_append]
        obtain ⟨c, hc⟩ := Option.ne_none_iff_exists'.mp
          (mt List.getLast?_eq_none_iff.mp (h.tail.joined_ne_nil hws))
        rw [hc, Option.some_or, ← hc]
        exact ih h.tail

/-- No two separators stand side by side in it. -/
theorem isChain_joined (h : Apart d ws) :
    ([d].intercalate ws).IsChain fun a b => ¬ (a = d ∧ b = d) := by
  induction ws with
  | nil => exact .nil
  | cons w ws ih =>
      have hw := isChain_of_not_mem (h.not_mem w List.mem_cons_self)
      obtain rfl | hws := eq_or_ne ws []
      · rwa [List.intercalate_singleton]
      · rw [List.intercalate_cons_of_ne_nil hws, List.append_assoc]
        refine hw.append ((ih h.tail).cons fun y hy hdy => ?_) fun x hx y _ hxy => ?_
        · rw [hdy.2] at hy
          exact h.tail.head_joined hy
        · rw [hxy.1] at hx
          exact h.not_mem w List.mem_cons_self (List.mem_of_getLast? hx)

/-- A separator stands exactly where a proper group of first words ends. -/
theorem getElem?_joined (h : Apart d ws) (n : Nat) : ([d].intercalate ws)[n]? = some d ↔
    ∃ i, 0 < i ∧ i < ws.length ∧ ([d].intercalate (ws.take i)).length = n := by
  induction ws generalizing n with
  | nil =>
      refine iff_of_false ?_ ?_
      · rw [List.intercalate_nil, List.getElem?_nil]
        exact (Option.some_ne_none d).symm
      · rintro ⟨i, -, hi, -⟩
        exact absurd hi (Nat.not_lt_zero i)
  | cons w ws ih =>
      have hfree : ∀ k, w[k]? ≠ some d := fun k hk =>
        h.not_mem w List.mem_cons_self (List.mem_of_getElem? hk)
      obtain rfl | hws := eq_or_ne ws []
      · rw [List.intercalate_singleton]
        refine iff_of_false (hfree n) ?_
        rintro ⟨i, hpos, hi, -⟩
        rw [List.length_singleton] at hi
        omega
      · have hlength : ∀ i, 0 < i → i < ws.length →
            ([d].intercalate (w :: ws.take i)).length =
              w.length + 1 + ([d].intercalate (ws.take i)).length := by
          intro i hpos hi
          have hne : ws.take i ≠ [] := by
            rw [Ne, List.take_eq_nil_iff, not_or]
            exact ⟨hpos.ne', hws⟩
          rw [List.intercalate_cons_of_ne_nil hne, List.length_append, List.length_append,
            List.length_singleton]
        rw [List.intercalate_cons_of_ne_nil hws, List.append_assoc, List.singleton_append]
        obtain hlt | rfl | hgt := lt_trichotomy n w.length
        · rw [List.getElem?_append_left hlt]
          refine iff_of_false (hfree n) ?_
          rintro ⟨i, hpos, hi, hn⟩
          obtain ⟨i, rfl⟩ := Nat.exists_eq_succ_of_ne_zero hpos.ne'
          rw [List.take_succ_cons] at hn
          obtain rfl | hi0 := Nat.eq_zero_or_pos i
          · rw [List.take_zero, List.intercalate_singleton] at hn
            omega
          · rw [hlength i hi0 (Nat.lt_of_succ_lt_succ hi)] at hn
            omega
        · rw [List.getElem?_append_right le_rfl, Nat.sub_self, List.getElem?_cons_zero]
          refine iff_of_true rfl ⟨1, Nat.one_pos, ?_, ?_⟩
          · exact Nat.succ_lt_succ (List.length_pos_of_ne_nil hws)
          · rw [List.take_succ_cons, List.take_zero, List.intercalate_singleton]
        · obtain ⟨k, rfl⟩ : ∃ k, n = w.length + 1 + k := ⟨n - w.length - 1, by omega⟩
          have hk : w.length + 1 + k - w.length = k + 1 := by omega
          rw [List.getElem?_append_right hgt.le, hk, List.getElem?_cons_succ, ih h.tail]
          constructor
          · rintro ⟨i, hpos, hi, hn⟩
            refine ⟨i + 1, Nat.succ_pos i, Nat.succ_lt_succ hi, ?_⟩
            rw [List.take_succ_cons, hlength i hpos hi, hn]
          · rintro ⟨i, hpos, hi, hn⟩
            obtain ⟨i, rfl⟩ := Nat.exists_eq_succ_of_ne_zero hpos.ne'
            rw [List.take_succ_cons] at hn
            obtain rfl | hi0 := Nat.eq_zero_or_pos i
            · rw [List.take_zero, List.intercalate_singleton] at hn
              omega
            · have hi' := Nat.lt_of_succ_lt_succ hi
              rw [hlength i hi0 hi'] at hn
              exact ⟨i, hi0, hi', by omega⟩

end Apart

end Prodinamik.Lib.Words
