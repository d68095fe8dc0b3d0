import Mathlib.Data.List.Nodup

namespace Prodinamik.Lib

variable {κ α β : Type} [DecidableEq κ]

/-- Records in the order they came in, no two under one key. -/
structure Table (key : α → κ) where
  rows : List α
  nodup : (rows.map key).Nodup

namespace Table

variable {key : α → κ}

def empty : Table key := ⟨[], List.nodup_nil⟩

def get (t : Table key) (k : κ) : Option α := t.rows.find? fun a => key a = k

theorem get_eq_some {t : Table key} {k : κ} {a : α} :
    t.get k = some a ↔ a ∈ t.rows ∧ key a = k := by
  constructor
  · intro h
    exact ⟨List.mem_of_find?_eq_some h, by simpa using List.find?_some h⟩
  · rintro ⟨ha, rfl⟩
    cases h : t.get (key a) with
    | none =>
        have := List.find?_eq_none.mp h a ha
        simp at this
    | some b =>
        have hb : b ∈ t.rows ∧ key b = key a :=
          ⟨List.mem_of_find?_eq_some h, by simpa using List.find?_some h⟩
        rw [List.inj_on_of_nodup_map t.nodup hb.1 ha hb.2]

theorem key_of_get {t : Table key} {k : κ} {a : α} (h : t.get k = some a) : key a = k :=
  (get_eq_some.mp h).2

theorem get_eq_none {t : Table key} {k : κ} : t.get k = none ↔ k ∉ t.rows.map key := by
  rw [get, List.find?_eq_none, List.mem_map]
  simp

@[simp]
theorem get_empty (k : κ) : (empty : Table key).get k = none := rfl

def replace (rows : List α) (a : α) (key : α → κ) : List α :=
  rows.map fun b => if key b = key a then a else b

theorem map_key_replace (rows : List α) (a : α) : (replace rows a key).map key = rows.map key := by
  rw [replace, List.map_map]
  refine List.map_congr_left fun b _ => ?_
  by_cases h : key b = key a
  · simp [h]
  · simp [h]

/-- A record takes the place of the one that is there under its key. -/
def put (t : Table key) (a : α) : Table key :=
  if h : key a ∈ t.rows.map key then
    ⟨replace t.rows a key, by rw [map_key_replace]; exact t.nodup⟩
  else
    ⟨t.rows ++ [a], by
      rw [List.map_append]
      exact t.nodup.append (List.nodup_singleton _) (by simpa using h)⟩

theorem rows_put_of_mem {t : Table key} {a : α} (h : key a ∈ t.rows.map key) :
    (t.put a).rows = replace t.rows a key := by
  rw [put, dif_pos h]

theorem rows_put_of_notMem {t : Table key} {a : α} (h : key a ∉ t.rows.map key) :
    (t.put a).rows = t.rows ++ [a] := by
  rw [put, dif_neg h]

theorem mem_rows_put {t : Table key} {a b : α} :
    b ∈ (t.put a).rows ↔ b = a ∨ b ∈ t.rows ∧ key b ≠ key a := by
  by_cases h : key a ∈ t.rows.map key
  · rw [rows_put_of_mem h, replace, List.mem_map]
    constructor
    · rintro ⟨c, hc, rfl⟩
      by_cases hk : key c = key a
      · simp [hk]
      · simp [hk, hc]
    · rintro (rfl | ⟨hb, hk⟩)
      · obtain ⟨c, hc, hk⟩ := List.mem_map.mp h
        exact ⟨c, hc, if_pos hk⟩
      · exact ⟨b, hb, if_neg hk⟩
  · rw [rows_put_of_notMem h, List.mem_append, List.mem_singleton, or_comm]
    constructor
    · rintro (rfl | hb)
      · exact .inl rfl
      · exact .inr ⟨hb, fun hk => h (hk ▸ List.mem_map_of_mem hb)⟩
    · rintro (rfl | ⟨hb, -⟩)
      · exact .inl rfl
      · exact .inr hb

theorem get_put (t : Table key) (a : α) (k : κ) :
    (t.put a).get k = if k = key a then some a else t.get k := by
  split
  case isTrue h => exact get_eq_some.mpr ⟨mem_rows_put.mpr (.inl rfl), h.symm⟩
  case isFalse h =>
    refine Option.ext fun b => ?_
    rw [get_eq_some, get_eq_some, mem_rows_put]
    constructor
    · rintro ⟨rfl | hb, rfl⟩
      · exact absurd rfl h
      · exact ⟨hb.1, rfl⟩
    · rintro ⟨hb, rfl⟩
      exact ⟨.inr ⟨hb, h⟩, rfl⟩

@[simp]
theorem get_put_self (t : Table key) (a : α) : (t.put a).get (key a) = some a := by
  rw [get_put, if_pos rfl]

theorem get_put_of_ne {t : Table key} {a : α} {k : κ} (h : k ≠ key a) :
    (t.put a).get k = t.get k := by
  rw [get_put, if_neg h]

def erase (t : Table key) (k : κ) : Table key where
  rows := t.rows.filter fun a => key a ≠ k
  nodup := t.nodup.sublist ((List.filter_sublist).map key)

theorem rows_erase (t : Table key) (k : κ) : (t.erase k).rows = t.rows.filter fun a => key a ≠ k := rfl

theorem mem_rows_erase {t : Table key} {k : κ} {a : α} :
    a ∈ (t.erase k).rows ↔ a ∈ t.rows ∧ key a ≠ k := by
  rw [erase, List.mem_filter, decide_eq_true_eq]

theorem get_erase (t : Table key) (k k' : κ) :
    (t.erase k).get k' = if k' = k then none else t.get k' := by
  refine Option.ext fun a => ?_
  rw [get_eq_some, mem_rows_erase]
  split
  case isTrue h =>
    subst h
    exact iff_of_false (fun ha => ha.1.2 ha.2) (Option.not_mem_none a)
  case isFalse h =>
    rw [get_eq_some]
    constructor
    · rintro ⟨⟨ha, -⟩, hk⟩
      exact ⟨ha, hk⟩
    · rintro ⟨ha, rfl⟩
      exact ⟨⟨ha, h⟩, rfl⟩

theorem mem_rows_foldl_put {l : List α} (hl : (l.map key).Nodup) {t : Table key} {b : α} :
    b ∈ (l.foldl put t).rows ↔ b ∈ l ∨ b ∈ t.rows ∧ key b ∉ l.map key := by
  induction l generalizing t with
  | nil => simp
  | cons a l ih =>
      rw [List.map_cons, List.nodup_cons] at hl
      rw [List.foldl_cons, ih hl.2, mem_rows_put, List.mem_cons, List.map_cons, List.mem_cons]
      constructor
      · rintro (hb | ⟨rfl | ⟨hb, hne⟩, hnot⟩)
        · exact .inl (.inr hb)
        · exact .inl (.inl rfl)
        · exact .inr ⟨hb, not_or.mpr ⟨hne, hnot⟩⟩
      · rintro ((rfl | hb) | ⟨hb, hnot⟩)
        · exact .inr ⟨.inl rfl, hl.1⟩
        · exact .inl hb
        · exact .inr ⟨.inr ⟨hb, (not_or.mp hnot).1⟩, (not_or.mp hnot).2⟩

/-- Nothing changes where a record takes its own place. -/
theorem put_of_mem {t : Table key} {a : α} (h : a ∈ t.rows) : t.put a = t := by
  have hrows : (t.put a).rows = t.rows := by
    rw [rows_put_of_mem (List.mem_map_of_mem h), replace]
    refine (List.map_congr_left fun b hb => ?_).trans (List.map_id _)
    split
    case isTrue hk => exact (List.inj_on_of_nodup_map t.nodup hb h hk).symm
    case isFalse => rfl
  cases hput : t.put a
  cases t
  rw [hput] at hrows
  cases hrows
  rfl

theorem filter_rows (t : Table key) (k : κ) :
    (t.rows.filter fun a => key a = k) = (t.get k).toList := by
  cases h : t.get k with
  | none =>
      have hk := get_eq_none.mp h
      refine List.filter_eq_nil_iff.mpr fun a ha hp => hk ?_
      rw [decide_eq_true_eq] at hp
      exact hp ▸ List.mem_map_of_mem ha
  | some a =>
      obtain ⟨ha, rfl⟩ := get_eq_some.mp h
      obtain ⟨before, after, hrows⟩ := List.append_of_mem ha
      have hnodup := t.nodup
      rw [hrows, List.map_append, List.map_cons, List.nodup_middle, List.nodup_cons,
        List.mem_append] at hnodup
      have hnil : ∀ rows : List α, key a ∉ rows.map key →
          (rows.filter fun b => key b = key a) = [] := by
        intro rows hkey
        refine List.filter_eq_nil_iff.mpr fun b hb hp => hkey ?_
        rw [decide_eq_true_eq] at hp
        exact hp ▸ List.mem_map_of_mem hb
      rw [hrows, List.filter_append, List.filter_cons_of_pos (by simp),
        hnil before fun hb => hnodup.1 (.inl hb), hnil after fun hb => hnodup.1 (.inr hb)]
      rfl

theorem countP_rows (t : Table key) (p : α → Bool) (k : κ) :
    t.rows.countP (fun a => key a = k ∧ p a) = if (t.get k).any p then 1 else 0 := by
  have hfilter : (t.rows.filter fun a => key a = k ∧ p a) = (t.get k).toList.filter p := by
    rw [← filter_rows, List.filter_filter]
    refine List.filter_congr fun a _ => ?_
    rw [Bool.decide_and, Bool.decide_eq_true, Bool.and_comm]
  rw [List.countP_eq_length_filter, hfilter]
  cases h : t.get k with
  | none => rfl
  | some a => cases hp : p a <;> simp [hp]

/-- How many records have a property, when one of them is replaced or added. -/
theorem countP_put (t : Table key) (a : α) (p : α → Bool) :
    (t.put a).rows.countP p + (if (t.get (key a)).any p then 1 else 0) =
      t.rows.countP p + if p a then 1 else 0 := by
  have hsplit : ∀ rows : List α, rows.countP p =
      rows.countP (fun b => key b = key a ∧ p b) + rows.countP fun b => key b ≠ key a ∧ p b := by
    intro rows
    induction rows with
    | nil => rfl
    | cons b rows ih =>
        simp only [List.countP_cons, ih]
        by_cases hk : key b = key a <;> cases hp : p b <;> simp [hk] <;> omega
  have hothers : (t.put a).rows.countP (fun b => key b ≠ key a ∧ p b) =
      t.rows.countP fun b => key b ≠ key a ∧ p b := by
    by_cases hmem : key a ∈ t.rows.map key
    · rw [rows_put_of_mem hmem, replace, List.countP_map]
      refine List.countP_congr fun b _ => ?_
      by_cases hk : key b = key a <;> simp [hk]
    · rw [rows_put_of_notMem hmem, List.countP_append]
      simp
  rw [hsplit, hsplit t.rows, hothers, countP_rows, countP_rows, get_put_self, Option.any_some]
  omega

/-! Two tables of which something is shown that determines the key. -/

section Shown

variable {t u : Table key} {f : α → β} (hf : ∀ a b, f a = f b → key a = key b)
include hf

theorem map_get (h : t.rows.map f = u.rows.map f) (k : κ) : (t.get k).map f = (u.get k).map f := by
  have hsome : ∀ {t u : Table key}, t.rows.map f = u.rows.map f → ∀ {a}, t.get k = some a →
      ∃ b, u.get k = some b ∧ f b = f a := by
    intro t u h a ha
    obtain ⟨hmem, hkey⟩ := get_eq_some.mp ha
    obtain ⟨b, hb, he⟩ := List.mem_map.mp (h ▸ List.mem_map_of_mem hmem)
    exact ⟨b, get_eq_some.mpr ⟨hb, (hf b a he).trans hkey⟩, he⟩
  cases ht : t.get k with
  | some a =>
      obtain ⟨b, hb, he⟩ := hsome h ht
      rw [hb, Option.map_some, Option.map_some, he]
  | none =>
      cases hu : u.get k with
      | none => rfl
      | some b =>
          obtain ⟨a, ha, -⟩ := hsome h.symm hu
          rw [ht] at ha
          cases ha

theorem mem_keys_iff (h : t.rows.map f = u.rows.map f) (k : κ) :
    k ∈ t.rows.map key ↔ k ∈ u.rows.map key := by
  have hget := map_get hf h k
  rw [← not_iff_not, ← get_eq_none, ← get_eq_none]
  cases ht : t.get k <;> cases hu : u.get k <;> simp [ht, hu] at hget ⊢

theorem map_replace {rows rows' : List α} (h : rows.map f = rows'.map f) {a b : α}
    (hab : f a = f b) : (replace rows a key).map f = (replace rows' b key).map f := by
  induction rows generalizing rows' with
  | nil =>
      rw [List.map_eq_nil_iff.mp h.symm]
      rfl
  | cons c cs ih =>
      cases rows' with
      | nil => cases h
      | cons d ds =>
          obtain ⟨hcd, hcs⟩ := List.cons.inj h
          have htail := ih hcs
          rw [replace, replace] at htail ⊢
          rw [List.map_cons, List.map_cons, List.map_cons, List.map_cons, htail, hf c d hcd,
            hf a b hab]
          split
          · rw [hab]
          · rw [hcd]

/-- Tables that show the same go on doing so if the new records do. -/
theorem map_put_iff (h : t.rows.map f = u.rows.map f) {a b : α} (hkey : key a = key b) :
    (t.put a).rows.map f = (u.put b).rows.map f ↔ f a = f b := by
  constructor
  · intro hput
    have hget := map_get hf hput (key a)
    rw [get_put_self, hkey, get_put_self] at hget
    exact Option.some.inj hget
  · intro hab
    by_cases hk : key a ∈ t.rows.map key
    · rw [rows_put_of_mem hk, rows_put_of_mem (hkey ▸ (mem_keys_iff hf h _).mp hk)]
      exact map_replace hf h hab
    · rw [rows_put_of_notMem hk, rows_put_of_notMem (hkey ▸ mt (mem_keys_iff hf h _).mpr hk),
        List.map_append, List.map_append, h, List.map_singleton, List.map_singleton, hab]

end Shown

end Table

end Prodinamik.Lib
