import Mathlib.Data.List.MinMax
import Mathlib.Data.List.Sort

namespace Prodinamik.Lib.StableSort

variable {α β : Type} [LinearOrder α] [LinearOrder β] (f : α → β)

/-- The order by a key, in which equal keys leave the order of the values. -/
def NotAfter (a b : α) : Prop := f a < f b ∨ f a = f b ∧ a ≤ b

variable {f}

theorem NotAfter.refl (a : α) : NotAfter f a a := Or.inr ⟨rfl, le_rfl⟩

theorem NotAfter.antisymm {a b : α} (h : NotAfter f a b) (h' : NotAfter f b a) : a = b := by
  rcases h with h | ⟨heq, h⟩
  · rcases h' with h' | ⟨heq', -⟩
    · exact absurd h (lt_asymm h')
    · exact absurd heq' h.ne'
  · rcases h' with h' | ⟨-, h'⟩
    · exact absurd heq h'.ne'
    · exact le_antisymm h h'

theorem NotAfter.trans {a b c : α} (h : NotAfter f a b) (h' : NotAfter f b c) : NotAfter f a c := by
  rcases h with h | ⟨heq, h⟩
  · rcases h' with h' | ⟨heq', -⟩
    · exact Or.inl (h.trans h')
    · exact Or.inl (heq' ▸ h)
  · rcases h' with h' | ⟨heq', h'⟩
    · exact Or.inl (heq ▸ h')
    · exact Or.inr ⟨heq.trans heq', h.trans h'⟩

theorem NotAfter.le {a b : α} (h : NotAfter f a b) : f a ≤ f b := by
  rcases h with h | ⟨heq, -⟩
  · exact h.le
  · exact heq.le

/-- Among values that are not before it a value is put in front of its equals. -/
theorem pairwise_orderedInsert {a : α} {l : List α} (h : l.Pairwise (NotAfter f))
    (ha : ∀ b ∈ l, a ≤ b) : (l.orderedInsert (fun a b => f a ≤ f b) a).Pairwise (NotAfter f) := by
  induction l with
  | nil => exact List.pairwise_singleton _ _
  | cons b l ih =>
      obtain ⟨hb, hl⟩ := List.pairwise_cons.mp h
      obtain ⟨hab, ha⟩ := List.forall_mem_cons.mp ha
      rw [List.orderedInsert_cons]
      split
      · rename_i hle
        have hbefore : NotAfter f a b := hle.lt_or_eq.imp id fun heq => ⟨heq, hab⟩
        refine List.pairwise_cons.mpr ⟨List.forall_mem_cons.mpr ⟨hbefore, ?_⟩, h⟩
        exact fun c hc => hbefore.trans (hb c hc)
      · rename_i hgt
        refine List.pairwise_cons.mpr ⟨?_, ih hl ha⟩
        intro c hc
        rcases (List.mem_orderedInsert _).mp hc with rfl | hc
        · exact Or.inl (not_le.mp hgt)
        · exact hb c hc

/-- A sort by a key keeps the order of the equal. -/
theorem pairwise_insertionSort {l : List α} (h : l.Pairwise (· ≤ ·)) :
    (l.insertionSort fun a b => f a ≤ f b).Pairwise (NotAfter f) := by
  induction l with
  | nil => exact .nil
  | cons a l ih =>
      obtain ⟨hfirst, hrest⟩ := List.pairwise_cons.mp h
      exact pairwise_orderedInsert (ih hrest) fun b hb => hfirst b ((List.mem_insertionSort _).mp hb)

omit [LinearOrder α] in
/-- The last of a list in order is the one that no other comes after. -/
theorem getLast?_iff {R : α → α → Prop} (hrefl : ∀ a, R a a)
    (hanti : ∀ a b, R a b → R b a → a = b) {l : List α} (h : l.Pairwise R) {a : α} :
    l.getLast? = some a ↔ a ∈ l ∧ ∀ b ∈ l, R b a := by
  have hlast : ∀ a, l.getLast? = some a → a ∈ l ∧ ∀ b ∈ l, R b a := by
    intro a ha
    obtain ⟨front, rfl⟩ := List.getLast?_eq_some_iff.mp ha
    refine ⟨by simp, fun b hb => ?_⟩
    rcases List.mem_append.mp hb with hb | hb
    · exact (List.pairwise_append.mp h).2.2 b hb a (List.mem_singleton_self a)
    · rw [List.mem_singleton.mp hb]
      exact hrefl a
  refine ⟨hlast a, ?_⟩
  rintro ⟨hmem, hall⟩
  obtain ⟨b, hb⟩ := Option.ne_none_iff_exists'.mp
    (List.getLast?_eq_none_iff.not.mpr (List.ne_nil_of_mem hmem))
  obtain ⟨hbmem, hball⟩ := hlast b hb
  rw [hb, hanti b a (hall b hbmem) (hball a hmem)]

end Prodinamik.Lib.StableSort

namespace Prodinamik.Lib.Argmax

variable {α β : Type} [LinearOrder β] {f : α → β} {l : List α} {a b : α}

/-- An element of a list that no other one exceeds. -/
def Greatest (f : α → β) (l : List α) (a : α) : Prop := a ∈ l ∧ ∀ c ∈ l, f c ≤ f a

theorem greatest_of_argmax (h : l.argmax f = some a) : Greatest f l a :=
  ⟨List.argmax_mem h, fun _ hc => List.le_of_mem_argmax hc h⟩

/-- The first of the greatest elements is the one that is found. -/
theorem argmax_cons_of_forall_le (h : ∀ c ∈ l, f c ≤ f a) : (a :: l).argmax f = some a := by
  rw [List.argmax_cons]
  cases hl : l.argmax f with
  | none => rfl
  | some c => exact if_neg (h c (List.argmax_mem hl)).not_gt

theorem argmax_eq_some_of_unique (ha : Greatest f l a) (h : ∀ b, Greatest f l b → b = a) :
    l.argmax f = some a := by
  cases hl : l.argmax f with
  | none =>
      rw [List.argmax_eq_none.mp hl] at ha
      exact absurd ha.1 List.not_mem_nil
  | some b => rw [h b (greatest_of_argmax hl)]

theorem Greatest.of_mem_iff {l' : List α} (h : ∀ c, c ∈ l ↔ c ∈ l') (ha : Greatest f l a) :
    Greatest f l' a :=
  ⟨(h a).mp ha.1, fun c hc => ha.2 c ((h c).mpr hc)⟩

/-- Two lists of the same elements, among which only one is greatest. -/
theorem argmax_congr {l' : List α} (h : ∀ c, c ∈ l ↔ c ∈ l')
    (hunique : ∀ a b, Greatest f l a → Greatest f l b → a = b) : l.argmax f = l'.argmax f := by
  cases hl : l.argmax f with
  | none =>
      rw [List.argmax_eq_none] at hl
      subst hl
      exact (List.argmax_eq_none.mpr (List.eq_nil_iff_forall_not_mem.mpr
        fun c hc => List.not_mem_nil ((h c).mpr hc))).symm
  | some a =>
      have ha := greatest_of_argmax hl
      exact (argmax_eq_some_of_unique (ha.of_mem_iff h) fun b hb =>
        hunique b a (hb.of_mem_iff fun c => (h c).symm) ha).symm

/-- The first in descending order is the first of the greatest. -/
theorem head?_insertionSort (f : α → β) (l : List α) :
    (l.insertionSort fun a b => f b ≤ f a).head? = l.argmax f := by
  induction l with
  | nil => rfl
  | cons a l ih =>
      rw [List.insertionSort_cons, List.argmax_cons, ← ih]
      cases l.insertionSort fun a b => f b ≤ f a with
      | nil => rfl
      | cons b rest =>
          rw [List.orderedInsert_cons]
          by_cases hle : f b ≤ f a
          · rw [if_pos hle]
            exact (if_neg hle.not_gt).symm
          · rw [if_neg hle]
            exact (if_pos (not_le.mp hle)).symm

theorem argmax_map {γ : Type} (g : γ → α) (f : α → β) (l : List γ) :
    (l.map g).argmax f = (l.argmax (f ∘ g)).map g := by
  induction l with
  | nil => rfl
  | cons c l ih =>
      rw [List.map_cons, List.argmax_cons, List.argmax_cons, ih]
      cases l.argmax (f ∘ g) with
      | none => rfl
      | some d => exact (apply_ite (Option.map g) (f (g c) < f (g d)) (some d) (some c)).symm

/-- The greatest stays what it is when it alone grows. -/
theorem argmax_of_le [DecidableEq α] {f' : α → β} (h : l.argmax f = some a) (hle : f a ≤ f' a)
    (hne : ∀ b ∈ l, b ≠ a → f' b = f b) : l.argmax f' = some a := by
  obtain ⟨hmem, hmax, hfirst⟩ := List.argmax_eq_some_iff.mp h
  refine List.argmax_eq_some_iff.mpr ⟨hmem, fun b hb => ?_, fun b hb hab => ?_⟩
  · by_cases hba : b = a
    · rw [hba]
    · rw [hne b hb hba]
      exact (hmax b hb).trans hle
  · by_cases hba : b = a
    · rw [hba]
    · rw [hne b hb hba] at hab
      exact hfirst b hb (hle.trans hab)

end Prodinamik.Lib.Argmax
