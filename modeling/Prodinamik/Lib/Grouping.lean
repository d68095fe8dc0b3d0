import Mathlib.Algebra.BigOperators.Group.Finset.Basic
import Mathlib.Data.List.Basic
import Mathlib.Data.List.Dedup
import Mathlib.Data.List.Induction
import Mathlib.Logic.Function.Basic
import Prodinamik.Lib.Table

namespace Prodinamik.Lib.Grouping

variable {α κ ν : Type} [DecidableEq κ]

/-- The keys in the order in which they come up first. -/
def firsts (keys : List κ) : List κ := keys.reverse.dedup.reverse

def groupBy (key : α → κ) (l : List α) : List (κ × List α) :=
  (firsts (l.map key)).map fun k => (k, l.filter fun a => key a = k)

/-- A dictionary that is filled in order, where a key may be written to again. -/
def assign (key : α → κ) (val : α → ν) (l : List α) : κ → Option ν :=
  l.foldl (fun d a => Function.update d (key a) (some (val a))) fun _ => none

theorem mem_firsts {keys : List κ} {k : κ} : k ∈ firsts keys ↔ k ∈ keys := by
  rw [firsts, List.mem_reverse, List.mem_dedup, List.mem_reverse]

theorem nodup_firsts (keys : List κ) : (firsts keys).Nodup :=
  List.nodup_reverse.mpr (List.nodup_dedup _)

theorem firsts_concat_of_mem {keys : List κ} {k : κ} (h : k ∈ keys) :
    firsts (keys ++ [k]) = firsts keys := by
  rw [firsts, List.reverse_append, List.reverse_singleton, List.singleton_append,
    List.dedup_cons_of_mem (List.mem_reverse.mpr h), firsts]

theorem firsts_concat_of_notMem {keys : List κ} {k : κ} (h : k ∉ keys) :
    firsts (keys ++ [k]) = firsts keys ++ [k] := by
  rw [firsts, List.reverse_append, List.reverse_singleton, List.singleton_append,
    List.dedup_cons_of_notMem (List.mem_reverse.not.mpr h), List.reverse_cons, firsts]

theorem mem_groupBy {key : α → κ} {l : List α} {g : κ × List α} :
    g ∈ groupBy key l ↔ (∃ a ∈ l, key a = g.1) ∧ g.2 = l.filter fun a => key a = g.1 := by
  rw [groupBy, List.mem_map]
  constructor
  · rintro ⟨k, hk, rfl⟩
    exact ⟨List.mem_map.mp (mem_firsts.mp hk), rfl⟩
  · rintro ⟨ha, hg⟩
    exact ⟨g.1, mem_firsts.mpr (List.mem_map.mpr ha), Prod.ext rfl hg.symm⟩

theorem assign_eq (key : α → κ) (val : α → ν) (l : List α) (k : κ) :
    assign key val l k = (l.filter fun a => key a = k).getLast?.map val := by
  induction l using List.reverseRecOn with
  | nil => rfl
  | append_singleton l a ih =>
      have hwrite : assign key val (l ++ [a]) k =
          Function.update (assign key val l) (key a) (some (val a)) k := by
        rw [assign, List.foldl_append]
        rfl
      rw [hwrite, List.filter_append, List.filter_singleton]
      by_cases hk : key a = k
      · subst hk
        simp
      · rw [Function.update_of_ne (Ne.symm hk), ih, decide_eq_false hk, Bool.cond_false,
          List.append_nil]

/-- A dictionary of one key. -/
theorem groupBy_of_forall_eq {key : α → κ} {l : List α} {k : κ} (hne : l ≠ [])
    (h : ∀ a ∈ l, key a = k) : groupBy key l = [(k, l)] := by
  have hkeys : l.map key = List.replicate l.length k := by
    rw [List.eq_replicate_iff, List.length_map]
    exact ⟨rfl, fun b hb => by obtain ⟨a, ha, rfl⟩ := List.mem_map.mp hb; exact h a ha⟩
  have hfirsts : firsts (l.map key) = [k] := by
    rw [firsts, hkeys, List.reverse_replicate,
      List.replicate_dedup (List.length_eq_zero_iff.not.mpr hne), List.reverse_singleton]
  have hall : (l.filter fun a => key a = k) = l :=
    List.filter_eq_self.mpr fun a ha => decide_eq_true (h a ha)
  rw [groupBy, hfirsts, List.map_singleton, hall]

/-- Of a list with the last element first, those that had come up some times before. -/
def repeats (times : Nat) : List κ → List κ
  | [] => []
  | a :: before =>
      if times ≤ before.count a then a :: repeats times before else repeats times before

theorem count_repeats (times : Nat) (l : List κ) (a : κ) :
    (repeats times l).count a = l.count a - times := by
  induction l with
  | nil => simp [repeats]
  | cons b before ih =>
      rw [repeats]
      by_cases hba : b = a
      · subst hba
        split
        · rw [List.count_cons_self, List.count_cons_self, ih]
          omega
        · rw [List.count_cons_self, ih]
          omega
      · split
        · rw [List.count_cons_of_ne hba, List.count_cons_of_ne hba, ih]
        · rw [List.count_cons_of_ne hba, ih]

theorem length_repeats (times : Nat) (l : List κ) :
    (repeats times l).length = ∑ a ∈ l.toFinset, (l.count a - times) := by
  have hsub : (repeats times l).toFinset ⊆ l.toFinset := by
    intro a ha
    rw [List.mem_toFinset, ← List.count_pos_iff] at ha ⊢
    rw [count_repeats] at ha
    omega
  rw [← List.sum_toFinset_count_eq_length, Finset.sum_subset hsub fun a _ ha => ?_]
  · exact Finset.sum_congr rfl fun a _ => count_repeats times l a
  · exact List.count_eq_zero_of_not_mem fun hmem => ha (List.mem_toFinset.mpr hmem)

end Prodinamik.Lib.Grouping

namespace Prodinamik.Lib.Assoc

variable {κ α : Type} [DecidableEq κ]

theorem lookup_eq_some_iff {l : List (κ × α)}
    (h : (l.map Prod.fst).Nodup) {k : κ} {a : α} : l.lookup k = some a ↔ (k, a) ∈ l := by
  induction l with
  | nil => simp
  | cons x l ih =>
      obtain ⟨hx, hl⟩ := List.nodup_cons.mp h
      rw [List.lookup_cons, List.mem_cons]
      by_cases hk : k = x.1
      · rw [beq_iff_eq.mpr hk]
        refine ⟨fun heq => Or.inl (Prod.ext hk (Option.some.inj heq).symm), ?_⟩
        rintro (rfl | hmem)
        · rfl
        · exact absurd (List.mem_map_of_mem (f := Prod.fst) hmem) (hk ▸ hx)
      · rw [beq_eq_false_iff_ne.mpr hk]
        refine (ih hl).trans ⟨Or.inr, fun hmem => hmem.resolve_left fun heq => ?_⟩
        exact hk (congrArg Prod.fst heq)

/-- A dict that is built by a function of the keys of another. -/
theorem lookup_filterMap {β : Type} (f : κ → Option β) (l : List (κ × α)) (k : κ) :
    (l.filterMap fun x => (f x.1).map fun b => (x.1, b)).lookup k =
      if (l.lookup k).isSome then f k else none := by
  induction l with
  | nil => rfl
  | cons x l ih =>
      by_cases hk : k = x.1
      · rw [List.lookup_cons, beq_iff_eq.mpr hk]
        cases hf : f x.1 with
        | none =>
            rw [List.filterMap_cons_none (by rw [hf]; rfl), ih, hk, hf]
            exact ite_self none
        | some b =>
            rw [List.filterMap_cons_some (by rw [hf]; rfl), List.lookup_cons, beq_iff_eq.mpr hk, hk, hf]
            rfl
      · rw [List.lookup_cons, beq_eq_false_iff_ne.mpr hk]
        cases hf : f x.1 with
        | none => rw [List.filterMap_cons_none (by rw [hf]; rfl), ih]
        | some b =>
            rw [List.filterMap_cons_some (by rw [hf]; rfl), List.lookup_cons, beq_eq_false_iff_ne.mpr hk]
            exact ih

end Prodinamik.Lib.Assoc

namespace Prodinamik.Lib

variable {α κ β : Type} [DecidableEq κ]

/-- An event changes what is under its key, if it has one, and may fail to. -/
def keyedStep (key : α → Option κ) (act : α → β → Option β) (s : κ → β) (a : α) : Option (κ → β) :=
  match key a with
  | none => some s
  | some k => (act a (s k)).map fun b => Function.update s k b

variable {key : α → Option κ} {act : α → β → Option β}

/-- What comes of a run of events under a key comes of those that have this key. -/
theorem foldlM_keyedStep {as : List α} {s t : κ → β} :
    as.foldlM (keyedStep key act) s = some t ↔
      ∀ k, (as.filter fun a => key a = some k).foldlM (fun b a => act a b) (s k) = some (t k) := by
  induction as generalizing s with
  | nil =>
      rw [List.foldlM_nil]
      exact Option.some_inj.trans ⟨fun h k => by rw [h]; rfl, fun h => funext fun k =>
        Option.some_inj.mp (h k)⟩
  | cons a as ih =>
      rw [List.foldlM_cons, keyedStep]
      cases hkey : key a with
      | none =>
          refine Iff.trans ih (forall_congr' fun k => ?_)
          rw [List.filter_cons_of_neg (by simp [hkey])]
      | some k =>
          have hother : ∀ k', k' ≠ k → (a :: as).filter (fun a => key a = some k') =
              as.filter fun a => key a = some k' := fun k' hne =>
            List.filter_cons_of_neg (by simpa [hkey] using Ne.symm hne)
          have hself : (a :: as).filter (fun a => key a = some k) =
              a :: as.filter fun a => key a = some k := List.filter_cons_of_pos (by simp [hkey])
          dsimp only
          cases hact : act a (s k) with
          | none =>
              refine ⟨fun h => (Option.some_ne_none _ h.symm).elim, fun h => ?_⟩
              have hk := h k
              rw [hself, List.foldlM_cons, hact] at hk
              exact (Option.some_ne_none _ hk.symm).elim
          | some b =>
              refine Iff.trans ih (forall_congr' fun k' => ?_)
              dsimp only
              by_cases hk : k' = k
              · subst hk
                rw [hself, List.foldlM_cons, hact, Function.update_self]
                rfl
              · rw [hother k' hk, Function.update_of_ne hk]

end Prodinamik.Lib

namespace Prodinamik.Lib

variable {κ β : Type} [DecidableEq κ]

/-- Lists under keys, the keys in the order in which they came in. -/
abbrev ListIndex (κ β : Type) := Table (Prod.fst : κ × List β → κ)

namespace ListIndex

def entry (index : ListIndex κ β) (k : κ) : List β := ((index.get k).map Prod.snd).getD []

def keys (index : ListIndex κ β) : List κ := index.rows.map Prod.fst

/-- A key that is missing comes in with its first value. -/
def push (index : ListIndex κ β) (k : κ) (b : β) : ListIndex κ β :=
  index.put (k, index.entry k ++ [b])

/-- The value is taken off where it is the first of its list; the key stays. -/
def popFirst [DecidableEq β] (index : ListIndex κ β) (k : κ) (b : β) : ListIndex κ β :=
  if (index.entry k).head? = some b then index.put (k, (index.entry k).tail) else index

/-- A value is taken off every list. -/
def forget [DecidableEq β] (index : ListIndex κ β) (b : β) : ListIndex κ β where
  rows := index.rows.map fun e => (e.1, e.2.erase b)
  nodup := by
    rw [List.map_map]
    exact index.nodup

theorem entry_forget [DecidableEq β] (index : ListIndex κ β) (b : β) (k : κ) :
    (index.forget b).entry k = (index.entry k).erase b := by
  have hget : (index.forget b).get k = (index.get k).map fun e => (e.1, e.2.erase b) := by
    rw [Table.get, forget, List.find?_map]
    rfl
  rw [entry, entry, hget]
  cases index.get k <;> rfl

theorem entry_put (index : ListIndex κ β) (k : κ) (l : List β) (k' : κ) :
    entry (index.put (k, l)) k' = if k' = k then l else index.entry k' := by
  rw [entry, Table.get_put]
  split
  case isTrue => rfl
  case isFalse => rfl

theorem mem_keys_put {index : ListIndex κ β} {k : κ} {l : List β} {k' : κ} :
    k' ∈ keys (index.put (k, l)) ↔ k' = k ∨ k' ∈ index.keys := by
  rw [keys, ← not_iff_not, ← Table.get_eq_none, Table.get_put, keys, not_or, ← Table.get_eq_none]
  split
  case isTrue h => exact iff_of_false (Option.some_ne_none _) fun hne => hne.1 h
  case isFalse h => exact (and_iff_right h).symm

theorem mem_keys_of_entry {index : ListIndex κ β} {k : κ} (h : index.entry k ≠ []) :
    k ∈ index.keys := by
  by_contra hnot
  rw [entry, Table.get_eq_none.mpr hnot] at h
  exact h rfl

theorem mem_keys_push {index : ListIndex κ β} {k : κ} {b : β} {k' : κ} :
    k' ∈ (index.push k b).keys ↔ k' = k ∨ k' ∈ index.keys := mem_keys_put

theorem mem_keys_popFirst [DecidableEq β] {index : ListIndex κ β} {k : κ} {b : β} {k' : κ} :
    k' ∈ (index.popFirst k b).keys ↔ k' ∈ index.keys := by
  rw [popFirst]
  split
  case isTrue h =>
    rw [mem_keys_put, or_iff_right_iff_imp]
    rintro rfl
    refine mem_keys_of_entry fun hnil => ?_
    rw [hnil] at h
    cases h
  case isFalse => rfl

/-- Every list holds the values that belong to its key, in their order. -/
def Follows (key : β → κ) (index : ListIndex κ β) (l : List β) : Prop :=
  ∀ k, index.entry k = l.filter fun b => key b = k

namespace Follows

variable {key : β → κ} {index : ListIndex κ β} {l : List β} {b : β}

theorem push (h : Follows key index l) (b : β) : Follows key (index.push (key b) b) (l ++ [b]) := by
  intro k
  rw [ListIndex.push, entry_put, List.filter_append, List.filter_singleton]
  split
  case isTrue hk =>
    rw [hk, h, decide_eq_true rfl, Bool.cond_true]
  case isFalse hk =>
    rw [h, decide_eq_false (Ne.symm hk), Bool.cond_false, List.append_nil]

/-- The first of all values is the first of its list. -/
theorem popFirst [DecidableEq β] (h : Follows key index (b :: l)) :
    Follows key (index.popFirst (key b) b) l := by
  have hfirst : index.entry (key b) = b :: l.filter fun b' => key b' = key b := by
    rw [h]
    exact List.filter_cons_of_pos (decide_eq_true rfl)
  intro k
  rw [ListIndex.popFirst, hfirst, if_pos List.head?_cons, entry_put, List.tail_cons]
  split
  case isTrue hk => rw [hk]
  case isFalse hk => rw [h, List.filter_cons_of_neg (by simpa using Ne.symm hk)]

end Follows

end ListIndex

end Prodinamik.Lib
