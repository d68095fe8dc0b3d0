import Mathlib.Data.Finset.Card
import Mathlib.Data.List.Basic
import Mathlib.Data.List.MinMax
import Prodinamik.Lib.Table

namespace Prodinamik.Lib

variable {κ α : Type} [DecidableEq κ]

namespace Table

variable {key : α → κ}

theorem eq_of_rows {t u : Table key} (h : t.rows = u.rows) : t = u := by
  cases t
  cases u
  cases h
  rfl

theorem erase_of_get_eq_none {t : Table key} {k : κ} (h : t.get k = none) : t.erase k = t := by
  refine eq_of_rows ?_
  rw [rows_erase, List.filter_eq_self]
  exact fun a ha => decide_eq_true fun hk => get_eq_none.mp h (hk ▸ List.mem_map_of_mem ha)

end Table

/-- Values under keys, from the least to the most recently used. -/
abbrev LruCache (κ α : Type) [DecidableEq κ] := Table (Prod.fst : κ × α → κ)

namespace LruCache

def find (c : LruCache κ α) (k : κ) : Option α := (c.get k).map Prod.snd

/-- The entries of a key behind the others. -/
theorem perm_moved (rows : List (κ × α)) (k : κ) :
    ((rows.filter fun e => e.1 ≠ k) ++ rows.filter fun e => e.1 = k).Perm rows := by
  have hperm := List.filter_append_perm (fun e : κ × α => decide (e.1 ≠ k)) rows
  simpa using hperm

def moveToEnd (c : LruCache κ α) (k : κ) : LruCache κ α where
  rows := (c.rows.filter fun e => e.1 ≠ k) ++ c.rows.filter fun e => e.1 = k
  nodup := ((perm_moved c.rows k).map Prod.fst).nodup_iff.mpr c.nodup

/-- The least recently used one goes. -/
def popFirst (c : LruCache κ α) : LruCache κ α where
  rows := c.rows.tail
  nodup := c.nodup.sublist ((List.tail_sublist c.rows).map Prod.fst)

theorem rows_popFirst (c : LruCache κ α) : c.popFirst.rows = c.rows.tail := rfl

theorem popFirst_eq_erase {c : LruCache κ α} {e : κ × α} {rest : List (κ × α)}
    (h : c.rows = e :: rest) : c.popFirst = c.erase e.1 := by
  have hnodup := c.nodup
  rw [h, List.map_cons, List.nodup_cons] at hnodup
  refine Table.eq_of_rows ?_
  rw [rows_popFirst, Table.rows_erase, h, List.tail_cons, List.filter_cons_of_neg (by simp),
    eq_comm, List.filter_eq_self]
  intro b hb
  exact decide_eq_true fun heq => hnodup.1 (heq ▸ List.mem_map_of_mem hb)

theorem popFirst_of_nil {c : LruCache κ α} (h : c.rows = []) : c.popFirst = c :=
  Table.eq_of_rows (by rw [rows_popFirst, h, List.tail_nil])

/-- A size of zero or less keeps nothing. -/
def store (size : Int) (c : LruCache κ α) (k : κ) (a : α) : LruCache κ α :=
  if size < (c.put (k, a)).rows.length then popFirst (c.put (k, a)) else c.put (k, a)

theorem find_eq_some {c : LruCache κ α} {k : κ} {a : α} : c.find k = some a ↔ (k, a) ∈ c.rows := by
  rw [find, Option.map_eq_some_iff]
  constructor
  · rintro ⟨⟨k', a'⟩, hget, rfl⟩
    obtain ⟨hmem, rfl⟩ := Table.get_eq_some.mp hget
    exact hmem
  · intro hmem
    exact ⟨(k, a), Table.get_eq_some.mpr ⟨hmem, rfl⟩, rfl⟩

theorem mem_moveToEnd {c : LruCache κ α} {k : κ} {e : κ × α} :
    e ∈ (c.moveToEnd k).rows ↔ e ∈ c.rows :=
  (perm_moved c.rows k).mem_iff

theorem length_moveToEnd (c : LruCache κ α) (k : κ) :
    (c.moveToEnd k).rows.length = c.rows.length :=
  (perm_moved c.rows k).length_eq

/-- What is in the cache was there before or is what has been stored. -/
theorem mem_store {size : Int} {c : LruCache κ α} {k : κ} {a : α} {e : κ × α}
    (he : e ∈ (c.store size k a).rows) : e = (k, a) ∨ e ∈ c.rows ∧ e.1 ≠ k := by
  rw [store] at he
  split at he
  case isTrue => exact Table.mem_rows_put.mp (List.mem_of_mem_tail he)
  case isFalse => exact Table.mem_rows_put.mp he

/-- No more than the size is kept. -/
theorem length_store {size : Int} {c : LruCache κ α} {k : κ} {a : α}
    (hc : (c.rows.length : Int) ≤ max size 0) (hk : c.find k = none) :
    ((c.store size k a).rows.length : Int) ≤ max size 0 := by
  have hnone : k ∉ c.rows.map Prod.fst := by
    rwa [find, Option.map_eq_none_iff, Table.get_eq_none] at hk
  have hlength : (c.put (k, a)).rows.length = c.rows.length + 1 := by
    rw [Table.rows_put_of_notMem hnone, List.length_append, List.length_singleton]
  rw [store]
  split
  case isTrue => rw [popFirst, List.length_tail, hlength]; omega
  case isFalse hle => omega

/-- A value under a key becomes the most recently used. -/
def touch (c : LruCache κ α) (k : κ) (a : α) : LruCache κ α := (c.erase k).put (k, a)

/-- A full cache makes room for a key that it has not. -/
def makeRoom (size : Int) (c : LruCache κ α) (k : κ) : LruCache κ α :=
  if size ≤ c.rows.length ∧ k ∉ c.rows.map Prod.fst then c.popFirst else c

theorem rows_touch (c : LruCache κ α) (k : κ) (a : α) :
    (c.touch k a).rows = (c.rows.filter fun e => e.1 ≠ k) ++ [(k, a)] := by
  refine Table.rows_put_of_notMem fun h => ?_
  obtain ⟨e, he, hk⟩ := List.mem_map.mp h
  exact (Table.mem_rows_erase.mp he).2 hk

theorem find_touch (c : LruCache κ α) (k k' : κ) (a : α) :
    (c.touch k a).find k' = if k' = k then some a else c.find k' := by
  rw [find, touch, Table.get_put, Table.get_erase]
  split
  · rfl
  · rfl

theorem find_erase (c : LruCache κ α) (k k' : κ) :
    find (c.erase k) k' = if k' = k then none else c.find k' := by
  rw [find, Table.get_erase]
  split
  · rfl
  · rfl

/-- Of a cache that makes room for what is used next there is never more than its size. -/
theorem length_touch_makeRoom {size : Int} {c : LruCache κ α} (hc : (c.rows.length : Int) ≤ max 1 size)
    (k : κ) (a : α) : (((c.makeRoom size k).touch k a).rows.length : Int) ≤ max 1 size := by
  have hfilter : ∀ rows : List (κ × α), k ∈ rows.map Prod.fst →
      (rows.filter fun e => e.1 ≠ k).length < rows.length := by
    intro rows hmem
    obtain ⟨e, he, hk⟩ := List.mem_map.mp hmem
    exact List.length_filter_lt_length_iff_exists.mpr ⟨e, he, by simpa using hk⟩
  have hle : ∀ rows : List (κ × α), (rows.filter fun e => e.1 ≠ k).length ≤ rows.length :=
    fun rows => List.length_filter_le _ rows
  rw [rows_touch, List.length_append, List.length_singleton, makeRoom]
  split
  case isTrue =>
    have htail := hle c.popFirst.rows
    rw [rows_popFirst, List.length_tail] at htail
    rw [rows_popFirst]
    omega
  case isFalse hroom =>
    by_cases hmem : k ∈ c.rows.map Prod.fst
    · have hlt := hfilter c.rows hmem
      omega
    · have hrows := hle c.rows
      have hfree : ¬ size ≤ c.rows.length := fun h => hroom ⟨h, hmem⟩
      omega

/-- A value is under its key, and only some keys have been used since. -/
def Recent (c : LruCache κ α) (k : κ) (a : α) (used : Finset κ) : Prop :=
  ∃ before after, c.rows = before ++ (k, a) :: after ∧ ∀ e ∈ after, e.1 ∈ used

section Recent

variable {c : LruCache κ α} {k k' : κ} {a a' : α} {used : Finset κ}

theorem recent_touch (c : LruCache κ α) (k : κ) (a : α) (used : Finset κ) :
    Recent (c.touch k a) k a used :=
  ⟨_, [], rows_touch c k a, fun _ he => absurd he List.not_mem_nil⟩

theorem Recent.find (h : Recent c k a used) : c.find k = some a := by
  obtain ⟨before, after, hrows, -⟩ := h
  rw [find_eq_some, hrows]
  exact List.mem_append_right before List.mem_cons_self

theorem Recent.erase (h : Recent c k a used) (hne : k' ≠ k) : Recent (c.erase k') k a used := by
  obtain ⟨before, after, hrows, hafter⟩ := h
  refine ⟨before.filter fun e => e.1 ≠ k', after.filter fun e => e.1 ≠ k', ?_,
    fun e he => hafter e (List.mem_of_mem_filter he)⟩
  rw [Table.rows_erase, hrows, List.filter_append, List.filter_cons_of_pos (by simpa using hne.symm)]

theorem Recent.touch (h : Recent c k a used) (hne : k' ≠ k) (hused : k' ∈ used) :
    Recent (c.touch k' a') k a used := by
  obtain ⟨before, after, hrows, hafter⟩ := h.erase hne
  refine ⟨before, after ++ [(k', a')], ?_, fun e he => ?_⟩
  · rw [Table.rows_erase] at hrows
    rw [rows_touch, hrows, List.append_assoc, List.cons_append]
  · rcases List.mem_append.mp he with he | he
    · exact hafter e he
    · rwa [List.mem_singleton.mp he]

/-- Room is not made at its cost while fewer keys than the size have been used since. -/
theorem Recent.makeRoom {size : Int} (h : Recent c k a used) (hused : k' ∈ used)
    (hcard : (used.card : Int) < size) : Recent (c.makeRoom size k') k a used := by
  rw [LruCache.makeRoom]
  split
  case isFalse => exact h
  case isTrue hfull =>
    obtain ⟨before, after, hrows, hafter⟩ := h
    cases before with
    | cons e before => exact ⟨before, after, by rw [rows_popFirst, hrows]; rfl, hafter⟩
    | nil =>
        -- were it the least recently used, all the others and the new key would be among those used
        obtain ⟨hsize, hnew⟩ := hfull
        have hnodup := c.nodup
        rw [hrows, List.nil_append] at hsize hnew hnodup
        have hkeys : (k' :: after.map Prod.fst).Nodup :=
          List.nodup_cons.mpr ⟨fun hmem => hnew (List.mem_cons_of_mem _ hmem), hnodup.tail⟩
        have hsub : (k' :: after.map Prod.fst).toFinset ⊆ used := by
          intro x hx
          rcases List.mem_cons.mp (List.mem_toFinset.mp hx) with rfl | hx
          · exact hused
          · obtain ⟨e, he, rfl⟩ := List.mem_map.mp hx
            exact hafter e he
        have hle := Finset.card_le_card hsub
        rw [List.toFinset_card_of_nodup hkeys, List.length_cons, List.length_map] at hle
        rw [List.length_cons] at hsize
        omega

end Recent

end LruCache

end Prodinamik.Lib

namespace Prodinamik.Lib

variable {κ α T : Type} [DecidableEq κ] [LinearOrder T] {key : α → κ}

namespace Table

theorem filter_replace (rows : List α) (a : α) :
    ((replace rows a key).filter fun b => key b ≠ key a) = rows.filter fun b => key b ≠ key a := by
  induction rows with
  | nil => rfl
  | cons b rows ih =>
      rw [replace] at ih ⊢
      by_cases hb : key b = key a
      · rw [List.map_cons, if_pos hb, List.filter_cons_of_neg (by simp),
          List.filter_cons_of_neg (by simpa using hb), ih]
      · rw [List.map_cons, if_neg hb, List.filter_cons_of_pos (by simpa using hb),
          List.filter_cons_of_pos (by simpa using hb), ih]

/-- Wherever a record is put, it is there beside those of the other keys. -/
theorem perm_put (t : Table key) (a : α) :
    ((t.rows.filter fun b => key b ≠ key a) ++ [a]).Perm (t.put a).rows := by
  have hothers : ((t.put a).rows.filter fun b => key b ≠ key a) =
      t.rows.filter fun b => key b ≠ key a := by
    by_cases hmem : key a ∈ t.rows.map key
    · rw [rows_put_of_mem hmem, filter_replace]
    · rw [rows_put_of_notMem hmem, List.filter_append, List.filter_cons_of_neg (by simp),
        List.filter_nil, List.append_nil]
  have hself : ((t.put a).rows.filter fun b => ¬ key b ≠ key a) = [a] := by
    simp only [not_not]
    rw [filter_rows, get_put_self]
    rfl
  have hperm := List.filter_append_perm (fun b => decide (key b ≠ key a)) (t.put a).rows
  rw [hothers] at hperm
  refine .trans (.of_eq ?_) hperm
  rw [← hself]
  simp

end Table

/-- The records of a table by the time that is stamped on them. -/
structure Recency (stamp : α → T) (t : Table key) (byTime : List α) : Prop where
  perm : byTime.Perm t.rows
  later : byTime.Pairwise fun a b => stamp a < stamp b

namespace Recency

variable {stamp : α → T} {t : Table key} {byTime : List α}

theorem empty : Recency stamp (Table.empty : Table key) [] := ⟨.refl _, .nil⟩

/-- A record that is stamped after all others comes last. -/
theorem put (h : Recency stamp t byTime) {a : α}
    (ha : ∀ b ∈ t.rows, key b ≠ key a → stamp b < stamp a) :
    Recency stamp (t.put a) ((byTime.filter fun b => key b ≠ key a) ++ [a]) where
  perm := ((h.perm.filter _).append_right [a]).trans (t.perm_put a)
  later := by
    refine List.pairwise_append.mpr ⟨h.later.sublist List.filter_sublist,
      List.pairwise_singleton _ _, fun b hb c hc => ?_⟩
    obtain ⟨hmem, hne⟩ := List.mem_filter.mp hb
    rw [List.mem_singleton.mp hc]
    exact ha b (h.perm.mem_iff.mp hmem) (of_decide_eq_true hne)

theorem erase (h : Recency stamp t byTime) (k : κ) :
    Recency stamp (t.erase k) (byTime.filter fun b => key b ≠ k) :=
  ⟨h.perm.filter _, h.later.sublist List.filter_sublist⟩

/-- The record with the least stamp is the first. -/
theorem argmin_eq (h : Recency stamp t byTime) : t.rows.argmin stamp = byTime.head? := by
  obtain ⟨hperm, hlater⟩ := h
  cases byTime with
  | nil => rw [List.nil_perm.mp hperm]; rfl
  | cons a rest =>
      have hfirst : ∀ b ∈ t.rows, b = a ∨ stamp a < stamp b := fun b hb =>
        (List.mem_cons.mp (hperm.mem_iff.mpr hb)).imp id ((List.pairwise_cons.mp hlater).1 b)
      have hmem : a ∈ t.rows := hperm.mem_iff.mp List.mem_cons_self
      cases hmin : t.rows.argmin stamp with
      | none => rw [List.argmin_eq_none.mp hmin] at hmem; cases hmem
      | some b =>
          obtain rfl | hlt := hfirst b (List.argmin_mem hmin)
          · rfl
          · exact absurd (List.le_of_mem_argmin hmem hmin) hlt.not_ge

end Recency

end Prodinamik.Lib
