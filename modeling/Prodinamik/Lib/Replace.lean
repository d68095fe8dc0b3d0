import Mathlib.Data.List.Infix
import Prodinamik.Lib.Text

namespace Prodinamik.Lib.Replace

variable {α β : Type} [DecidableEq α] [DecidableEq β]

/-- In how many places p stands in a text. -/
def occurrences (p : List α) : List α → Nat
  | [] => if p = [] then 1 else 0
  | c :: s => (if p <+: c :: s then 1 else 0) + occurrences p s

/-- The rest of a text while the first of its characters are passed over. -/
def replaceFrom (old new : List α) : Nat → List α → List α
  | _, [] => []
  | skip + 1, _ :: s => replaceFrom old new skip s
  | 0, c :: s =>
      if old <+: c :: s then new ++ replaceFrom old new (old.length - 1) s
      else c :: replaceFrom old new 0 s

/-- Python's s.replace(old, new) for an old that is not empty. -/
def replaceAll (old new s : List α) : List α := replaceFrom old new 0 s

section Occurrences

variable {p : List α}

theorem occurrences_pos {s : List α} (h : p <:+: s) : 0 < occurrences p s := by
  induction s with
  | nil => simp [occurrences, List.infix_nil.mp h]
  | cons c s ih =>
      rw [occurrences]
      rcases List.infix_cons_iff.mp h with h | h
      · rw [if_pos h]
        omega
      · have := ih h
        omega

theorem infix_of_occurrences_pos {s : List α} (h : 0 < occurrences p s) : p <:+: s := by
  induction s with
  | nil =>
      rw [occurrences] at h
      split at h
      · simp_all
      · cases h
  | cons c s ih =>
      rw [occurrences] at h
      by_cases hp : p <+: c :: s
      · exact hp.isInfix
      · rw [if_neg hp, Nat.zero_add] at h
        exact (ih h).trans (List.suffix_cons c s).isInfix

theorem occurrences_eq_zero_iff {s : List α} : occurrences p s = 0 ↔ ¬ p <:+: s := by
  constructor
  · intro h hp
    have := occurrences_pos hp
    omega
  · intro h
    by_contra hne
    exact h (infix_of_occurrences_pos (Nat.pos_of_ne_zero hne))

omit [DecidableEq α] in
theorem prefix_append_cons {c : α} (hc : c ∉ p) (a b : List α) :
    p <+: a ++ c :: b ↔ p <+: a := by
  induction p generalizing a with
  | nil => simp
  | cons x p ih =>
      rw [List.mem_cons, not_or] at hc
      cases a with
      | nil => simpa using fun h : x = c => absurd h.symm hc.1
      | cons y a => rw [List.cons_append, List.cons_prefix_cons, List.cons_prefix_cons, ih hc.2]

/-- A character that p has not cuts the places where it stands in two. -/
theorem occurrences_append_cons {c : α} (hp : p ≠ []) (hc : c ∉ p) (a b : List α) :
    occurrences p (a ++ c :: b) = occurrences p a + occurrences p b := by
  induction a with
  | nil =>
      have hhead : ¬ p <+: c :: b := by
        rw [← List.nil_append (c :: b), prefix_append_cons hc, List.prefix_nil]
        exact hp
      rw [List.nil_append, occurrences, occurrences, if_neg hhead, if_neg hp]
  | cons x a ih =>
      have hhead : p <+: x :: (a ++ c :: b) ↔ p <+: x :: a := prefix_append_cons hc (x :: a) b
      rw [List.cons_append, occurrences, ih, occurrences, if_congr hhead rfl rfl]
      omega

omit [DecidableEq α] [DecidableEq β] in
theorem prefix_map_iff {f : α → β} (hf : ∀ c ∈ p, ∀ x, f x = f c ↔ x = c) (s : List α) :
    p.map f <+: s.map f ↔ p <+: s := by
  induction p generalizing s with
  | nil => simp
  | cons c p ih =>
      cases s with
      | nil => simp
      | cons x s =>
          rw [List.map_cons, List.map_cons, List.cons_prefix_cons, List.cons_prefix_cons,
            ih fun d hd => hf d (List.mem_cons_of_mem c hd), eq_comm, hf c List.mem_cons_self x,
            eq_comm]

theorem occurrences_map {f : α → β} (hf : ∀ c ∈ p, ∀ x, f x = f c ↔ x = c) (s : List α) :
    occurrences (p.map f) (s.map f) = occurrences p s := by
  induction s with
  | nil => simp [occurrences]
  | cons x s ih =>
      rw [List.map_cons, occurrences, ih, occurrences, ← List.map_cons,
        if_congr (prefix_map_iff hf (x :: s)) rfl rfl]

end Occurrences

section Newlines

open Text

variable {p : List Char}

theorem prefix_universalNewlines (hr : '\r' ∉ p) (hn : '\n' ∉ p) (s : List Char) :
    p <+: universalNewlines s ↔ p <+: s := by
  induction s using universalNewlines.induct generalizing p with
  | case1 rest ih =>
      rw [universalNewlines]
      exact ((prefix_append_cons hn [] _).trans (prefix_append_cons hr [] _).symm)
  | case2 rest h ih =>
      rw [universalNewlines]
      · exact ((prefix_append_cons hn [] _).trans (prefix_append_cons hr [] _).symm)
      · exact h
  | case3 c rest h₁ h₂ ih =>
      rw [universalNewlines]
      · cases p with
        | nil => simp
        | cons x p =>
            rw [List.mem_cons, not_or] at hr hn
            rw [List.cons_prefix_cons, List.cons_prefix_cons, ih hr.2 hn.2]
      · exact h₁
      · exact h₂
  | case4 => rfl

/-- Reading a file keeps the places of a text that has no line ends. -/
theorem occurrences_universalNewlines (hp : p ≠ []) (hr : '\r' ∉ p) (hn : '\n' ∉ p)
    (s : List Char) : occurrences p (universalNewlines s) = occurrences p s := by
  have hcut : ∀ {c : Char}, c ∉ p → ∀ s, occurrences p (c :: s) = occurrences p s := by
    intro c hc s
    have h := occurrences_append_cons hp hc [] s
    rw [List.nil_append, occurrences, if_neg hp, Nat.zero_add] at h
    exact h
  induction s using universalNewlines.induct with
  | case1 rest ih => rw [universalNewlines, hcut hn, ih, hcut hr, hcut hn]
  | case2 rest h ih =>
      rw [universalNewlines, hcut hn, ih, hcut hr]
      exact h
  | case3 c rest h₁ h₂ ih =>
      have hread : universalNewlines (c :: rest) = c :: universalNewlines rest := by
        rw [universalNewlines]
        · exact h₁
        · exact h₂
      have hhead := prefix_universalNewlines hr hn (c :: rest)
      rw [hread] at hhead
      rw [hread, occurrences, ih, occurrences, if_congr hhead rfl rfl]
  | case4 => rfl

end Newlines

section Replace

variable {old new : List α}

theorem replaceFrom_eq_drop (k : Nat) (s : List α) :
    replaceFrom old new k s = replaceAll old new (s.drop k) := by
  induction s generalizing k with
  | nil => cases k <;> rfl
  | cons c s ih =>
      cases k with
      | zero => rfl
      | succ k => rw [replaceFrom, ih, List.drop_succ_cons]

theorem replaceAll_hit {c : α} {s : List α} (h : old <+: c :: s) (hold : old ≠ []) :
    replaceAll old new (c :: s) = new ++ replaceAll old new ((c :: s).drop old.length) := by
  obtain ⟨n, hn⟩ := Nat.exists_eq_succ_of_ne_zero (mt List.length_eq_zero_iff.mp hold)
  rw [replaceAll, replaceFrom, if_pos h, replaceFrom_eq_drop, hn]
  rfl

theorem replaceAll_miss {c : α} {s : List α} (h : ¬ old <+: c :: s) :
    replaceAll old new (c :: s) = c :: replaceAll old new s := by
  rw [replaceAll, replaceFrom, if_neg h, replaceAll]

/-- A proof about a text goes over the places that are replaced and the
characters between them. -/
theorem replace_induction {P : List α → Prop} (old : List α) (hold : old ≠ []) (nil : P [])
    (found : ∀ c s, old <+: c :: s → P ((c :: s).drop old.length) → P (c :: s))
    (skip : ∀ c s, ¬ old <+: c :: s → P s → P (c :: s)) (s : List α) : P s := by
  induction hn : s.length using Nat.strong_induction_on generalizing s with
  | _ n ih =>
    subst hn
    cases s with
    | nil => exact nil
    | cons c s =>
        have hpos := List.length_pos_iff.mpr hold
        by_cases h : old <+: c :: s
        · refine found c s h (ih _ ?_ _ rfl)
          rw [List.length_drop, List.length_cons]
          omega
        · exact skip c s h (ih _ (by simp) s rfl)

theorem new_infix_replaceAll (hold : old ≠ []) {s : List α} (h : old <:+: s) :
    new <:+: replaceAll old new s := by
  induction s with
  | nil => exact absurd (List.infix_nil.mp h) hold
  | cons c s ih =>
      by_cases hp : old <+: c :: s
      · rw [replaceAll_hit hp hold]
        exact (List.prefix_append ..).isInfix
      · rw [replaceAll_miss hp]
        have hs := (List.infix_cons_iff.mp h).resolve_left hp
        exact (ih hs).trans (List.suffix_cons ..).isInfix

omit [DecidableEq β] in
theorem map_replaceAll {f : α → β} (hold : old ≠ []) (hf : old.map f = new.map f) (s : List α) :
    (replaceAll old new s).map f = s.map f := by
  induction s using replace_induction old hold with
  | nil => rfl
  | found c s h ih =>
      rw [replaceAll_hit h hold, List.map_append, ih, ← hf, ← List.map_append,
        List.prefix_iff_eq_append.mp h]
  | skip c s h ih => rw [replaceAll_miss h, List.map_cons, ih, List.map_cons]

/-! A word and its replacement that differ in something else than their first
character, which stands nowhere else in them. -/

section Marker

variable {h : α} {old' new' : List α}

theorem prefix_of_prefix_replaceAll {q : List α} (hq : h ∉ q) {s : List α}
    (hp : q <+: replaceAll (h :: old') (h :: new') s) : q <+: s := by
  induction q generalizing s with
  | nil => exact List.nil_prefix
  | cons a q ih =>
      rw [List.mem_cons, not_or] at hq
      cases s with
      | nil => exact hp
      | cons c s =>
          by_cases hc : h :: old' <+: c :: s
          · rw [replaceAll_hit hc (List.cons_ne_nil _ _), List.cons_append,
              List.cons_prefix_cons] at hp
            exact absurd hp.1.symm hq.1
          · rw [replaceAll_miss hc, List.cons_prefix_cons] at hp
            exact List.cons_prefix_cons.mpr ⟨hp.1, ih hq.2 hp.2⟩

omit [DecidableEq α] in
theorem not_infix_append {a s : List α} (ha : h ∉ a) (hs : ¬ h :: old' <:+: s) :
    ¬ h :: old' <:+: a ++ s := by
  induction a with
  | nil => exact hs
  | cons x a ih =>
      rw [List.mem_cons, not_or] at ha
      rw [List.cons_append, List.infix_cons_iff, not_or]
      exact ⟨fun hp => ha.1 (List.cons_prefix_cons.mp hp).1, ih ha.2⟩

theorem not_infix_replaceAll (hold : h ∉ old') (hnew : h ∉ new') (hne : old' ≠ new')
    (hlength : old'.length = new'.length) (s : List α) :
    ¬ h :: old' <:+: replaceAll (h :: old') (h :: new') s := by
  induction s using replace_induction (h :: old') (List.cons_ne_nil _ _) with
  | nil => simp [replaceAll, replaceFrom]
  | found c s hp ih =>
      rw [replaceAll_hit hp (List.cons_ne_nil _ _), List.cons_append, List.infix_cons_iff,
        not_or]
      refine ⟨fun hhead => hne ?_, not_infix_append hnew ih⟩
      have htail := (List.cons_prefix_cons.mp hhead).2
      have hle := List.prefix_of_prefix_length_le htail (List.prefix_append _ _) hlength.le
      exact hle.eq_of_length hlength
  | skip c s hp ih =>
      rw [replaceAll_miss hp, List.infix_cons_iff, not_or]
      refine ⟨fun hhead => hp ?_, ih⟩
      obtain ⟨rfl, htail⟩ := List.cons_prefix_cons.mp hhead
      exact List.cons_prefix_cons.mpr ⟨rfl, prefix_of_prefix_replaceAll hold htail⟩

end Marker

end Replace

end Prodinamik.Lib.Replace
