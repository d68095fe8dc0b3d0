import Mathlib.Data.List.Sort
import Mathlib.Order.Bounds.Defs
import Mathlib.Order.Defs.LinearOrder

namespace Prodinamik.Lib

namespace LazyHeap

variable {α : Type}

/-- The entries that are passed over, the first one that fits, and those
behind it. Stale entries met on the way are dropped. -/
def scan (stale fits : α → Bool) : List α → List α × Option α × List α
  | [] => ([], none, [])
  | e :: es =>
      if stale e then scan stale fits es
      else if fits e then ([], some e, es)
      else (e :: (scan stale fits es).1, (scan stale fits es).2)

theorem scan_sublist (stale fits : α → Bool) (es : List α) :
    ((scan stale fits es).1 ++ (scan stale fits es).2.2).Sublist es := by
  induction es with
  | nil => exact .refl _
  | cons e es ih =>
      rw [scan]
      split
      · exact ih.cons e
      · split
        · exact List.sublist_cons_self e es
        · exact ih.cons_cons e

theorem scan_found (stale fits : α → Bool) (es : List α) :
    (scan stale fits es).2.1 = (es.filter fun e => !stale e).find? fits := by
  induction es with
  | nil => rfl
  | cons e es ih =>
      rw [scan]
      by_cases hs : stale e
      · rw [if_pos hs, ih, List.filter_cons_of_neg (by simpa using hs)]
      · rw [if_neg hs, List.filter_cons_of_pos (by simpa using hs)]
        by_cases hf : fits e
        · rw [if_pos hf, List.find?_cons_of_pos hf]
        · rw [if_neg hf, List.find?_cons_of_neg hf]
          exact ih

theorem scan_filter (stale fits : α → Bool) (es : List α) :
    ((scan stale fits es).1 ++ (scan stale fits es).2.2).filter (fun e => !stale e) =
      (es.filter fun e => !stale e).eraseP fits := by
  induction es with
  | nil => rfl
  | cons e es ih =>
      rw [scan]
      by_cases hs : stale e
      · rw [if_pos hs, ih, List.filter_cons_of_neg (by simpa using hs)]
      · rw [if_neg hs, List.filter_cons_of_pos (by simpa using hs)]
        by_cases hf : fits e
        · rw [if_pos hf, List.eraseP_cons_of_pos hf]
          rfl
        · rw [if_neg hf, List.eraseP_cons_of_neg hf, ← ih]
          exact List.filter_cons_of_pos (by simpa using hs)

theorem perm_cons_eraseP {p : α → Bool} {as : List α} {a : α} (h : as.find? p = some a) :
    as.Perm (a :: as.eraseP p) := by
  induction as with
  | nil => cases h
  | cons b bs ih =>
      by_cases hb : p b
      · rw [List.find?_cons_of_pos hb] at h
        cases h
        rw [List.eraseP_cons_of_pos hb]
      · rw [List.find?_cons_of_neg hb] at h
        rw [List.eraseP_cons_of_neg hb]
        exact ((ih h).cons b).trans (.swap a b _)

end LazyHeap

/-- What a binary heap holds, in the order in which it gives it out. Entries
that became stale stay in it until they come up. -/
structure LazyHeap (α : Type) [LinearOrder α] where
  entries : List α
  sorted : entries.Pairwise (· ≤ ·)

namespace LazyHeap

variable {α : Type} [LinearOrder α]

def empty : LazyHeap α := ⟨[], .nil⟩

def push (h : LazyHeap α) (a : α) : LazyHeap α :=
  ⟨h.entries.orderedInsert (· ≤ ·) a, h.sorted.orderedInsert a h.entries⟩

@[simp]
theorem entries_empty : (empty : LazyHeap α).entries = [] := rfl

theorem push_perm (h : LazyHeap α) (a : α) : (h.push a).entries.Perm (a :: h.entries) :=
  List.perm_orderedInsert (· ≤ ·) a h.entries

theorem countP_push (h : LazyHeap α) (a : α) (p : α → Bool) :
    (h.push a).entries.countP p = h.entries.countP p + if p a then 1 else 0 := by
  rw [(h.push_perm a).countP_eq p, List.countP_cons]

theorem eq_of_perm_of_sorted {as bs : List α} (hp : as.Perm bs) (ha : as.Pairwise (· ≤ ·))
    (hb : bs.Pairwise (· ≤ ·)) : as = bs :=
  hp.eq_of_pairwise (fun _ _ _ _ => le_antisymm) ha hb

/-- An entry that comes last among those of a kind is put behind them. -/
theorem filter_push {h : LazyHeap α} {a : α} {p : α → Bool}
    (hlast : p a = true → ∀ b ∈ h.entries, p b = true → b ≤ a) :
    (h.push a).entries.filter p = h.entries.filter p ++ if p a = true then [a] else [] := by
  have hperm := (h.push_perm a).filter p
  by_cases ha : p a = true
  · rw [List.filter_cons_of_pos ha] at hperm
    rw [if_pos ha]
    refine eq_of_perm_of_sorted (hperm.trans (List.perm_append_singleton a _).symm)
      ((h.push a).sorted.sublist List.filter_sublist) ?_
    refine List.pairwise_append.mpr ⟨h.sorted.sublist List.filter_sublist,
      List.pairwise_singleton _ a, fun b hb c hc => ?_⟩
    obtain ⟨hmem, hb⟩ := List.mem_filter.mp hb
    rw [List.mem_singleton.mp hc]
    exact hlast ha b hmem hb
  · rw [List.filter_cons_of_neg ha] at hperm
    rw [if_neg ha, List.append_nil]
    exact eq_of_perm_of_sorted hperm ((h.push a).sorted.sublist List.filter_sublist)
      (h.sorted.sublist List.filter_sublist)

theorem foldl_push_perm (as : List α) (h : LazyHeap α) :
    (as.foldl push h).entries.Perm (as ++ h.entries) := by
  induction as generalizing h with
  | nil => exact .refl _
  | cons a as ih =>
      refine (ih (h.push a)).trans (((h.push_perm a).append_left as).trans ?_)
      exact List.perm_middle

/-- The first entry that fits leaves the heap; those passed over are pushed
back. -/
def pull (h : LazyHeap α) (stale fits : α → Bool) : Option α × LazyHeap α :=
  ((scan stale fits h.entries).2.1,
    (scan stale fits h.entries).1.foldl push
      ⟨(scan stale fits h.entries).2.2,
        h.sorted.sublist ((List.sublist_append_right _ _).trans (scan_sublist stale fits _))⟩)

variable (h : LazyHeap α) (stale fits : α → Bool)

/-- The entries a pull can still give out. -/
def live : List α := h.entries.filter fun e => !stale e

theorem pull_entries :
    (h.pull stale fits).2.entries =
      (scan stale fits h.entries).1 ++ (scan stale fits h.entries).2.2 :=
  eq_of_perm_of_sorted (foldl_push_perm _ _) (h.pull stale fits).2.sorted
    (h.sorted.sublist (scan_sublist stale fits _))

theorem pull_sublist : (h.pull stale fits).2.entries.Sublist h.entries := by
  rw [pull_entries]
  exact scan_sublist stale fits _

theorem pull_fst : (h.pull stale fits).1 = (h.live stale).find? fits := scan_found stale fits _

theorem live_pull : (h.pull stale fits).2.live stale = (h.live stale).eraseP fits := by
  rw [live, pull_entries, scan_filter, live]

/-- The first fitting entry of a sorted list is the least one that fits. -/
theorem find?_eq_some_iff_isLeast {as : List α} (hs : as.Pairwise (· ≤ ·)) {p : α → Bool} {a : α} :
    as.find? p = some a ↔ IsLeast {b | b ∈ as ∧ p b = true} a := by
  have hleast : ∀ c, as.find? p = some c → IsLeast {b | b ∈ as ∧ p b = true} c := by
    intro c hc
    refine ⟨⟨List.mem_of_find?_eq_some hc, List.find?_some hc⟩, ?_⟩
    rintro b ⟨hb, hpb⟩
    induction as with
    | nil => cases hc
    | cons d ds ih =>
        by_cases hd : p d
        · rw [List.find?_cons_of_pos hd] at hc
          obtain rfl := Option.some.inj hc
          rcases List.mem_cons.mp hb with rfl | hrest
          · exact le_refl b
          · exact List.rel_of_pairwise_cons hs hrest
        · rw [List.find?_cons_of_neg hd] at hc
          rcases List.mem_cons.mp hb with rfl | hrest
          · exact absurd hpb hd
          · exact ih hs.of_cons hc hrest
  refine ⟨hleast a, fun ha => ?_⟩
  cases hfind : as.find? p with
  | none => exact absurd ha.1.2 (List.find?_eq_none.mp hfind a ha.1.1)
  | some c =>
      have hc := hleast c hfind
      rw [le_antisymm (hc.2 ha.1) (ha.2 hc.1)]

theorem live_sorted : (h.live stale).Pairwise (· ≤ ·) := h.sorted.sublist List.filter_sublist

/-- A pull gives out the least entry that is neither stale nor passed over. -/
theorem pull_eq_some_iff {a : α} :
    (h.pull stale fits).1 = some a ↔
      IsLeast {b | b ∈ h.entries ∧ stale b = false ∧ fits b = true} a := by
  have hset : {b | b ∈ h.live stale ∧ fits b = true} =
      {b | b ∈ h.entries ∧ stale b = false ∧ fits b = true} := by
    ext b
    simp [live, and_assoc]
  rw [pull_fst, find?_eq_some_iff_isLeast (h.live_sorted stale), hset]

theorem pull_eq_none_iff :
    (h.pull stale fits).1 = none ↔ ∀ b ∈ h.entries, stale b = false → fits b = false := by
  rw [pull_fst, List.find?_eq_none]
  simp [live]

/-- What is not stale stays in the heap, but for the one entry given out. -/
theorem live_perm_of_pull {a : α} (hpull : (h.pull stale fits).1 = some a) :
    (h.live stale).Perm (a :: (h.pull stale fits).2.live stale) := by
  rw [pull_fst] at hpull
  rw [live_pull]
  exact perm_cons_eraseP hpull

theorem live_of_pull_none (hpull : (h.pull stale fits).1 = none) :
    (h.pull stale fits).2.live stale = h.live stale := by
  rw [pull_fst] at hpull
  rw [live_pull, List.eraseP_of_forall_not fun b hb => List.find?_eq_none.mp hpull b hb]

end LazyHeap

end Prodinamik.Lib
