import Mathlib.Data.List.Infix
import Prodinamik.Memory.LocalMemory

namespace Prodinamik.Memory

open Lib Lib.Json Lib.Run Lib.Text

variable {fl : Floats}

namespace LocalMemory

/-! What a value and its tags are read back as. -/

theorem readValue_valueText_iff {v : Value fl.Num} (h : Ok fl v) :
    readValue (valueText v) = v ↔ ∀ s, v = .str s → loadsMended fl s.toList = none := by
  cases v with
  | str s =>
      rw [valueText, readValue]
      cases hloads : loadsMended fl s.toList with
      | none => simp [hloads]
      | some w =>
          rw [Option.getD_some]
          refine iff_of_false ?_ fun hnone => ?_
          · rintro rfl
            have hlength := loads_str_length hloads
            rw [mend, length_mendFrom, String.length_toList] at hlength
            exact absurd hlength (lt_irrefl _)
          · rw [hnone s rfl] at hloads
            cases hloads
  | _ =>
      refine iff_of_true ?_ fun s hs => by cases hs
      rw [readValue, valueText, loadsMended_dumps h]
      · rfl
      · intro s hs
        cases hs

/-- A tag that no other is taken for. -/
def Clean (t : List Char) : Prop := t ≠ [] ∧ ',' ∉ t ∧ strip t = t

instance (t : List Char) : Decidable (Clean t) :=
  inferInstanceAs (Decidable (t ≠ [] ∧ ',' ∉ t ∧ strip t = t))

theorem readTags_tagsText_iff {tags : List (List Char)} :
    readTags (tagsText tags) = tags ↔ ∀ t ∈ tags, Clean t := by
  constructor
  · intro h t ht
    rw [← h, readTags] at ht
    split at ht
    · exact (List.not_mem_nil ht).elim
    · obtain ⟨hstripped, hne⟩ := List.mem_filter.mp ht
      obtain ⟨part, hpart, rfl⟩ := List.mem_map.mp hstripped
      refine ⟨of_decide_eq_true hne, fun hcomma => ?_, strip_strip part⟩
      exact (mem_splitOn hpart).1 (mem_of_mem_strip hcomma)
  · intro h
    cases tags with
    | nil => rfl
    | cons t ts =>
        have hne : tagsText (t :: ts) ≠ [] := by
          intro hnil
          have ht := (h t List.mem_cons_self).1
          cases ts with
          | nil => exact ht (by rwa [tagsText, List.intercalate_singleton] at hnil)
          | cons u ts =>
              rw [tagsText, List.intercalate_cons_of_ne_nil (List.cons_ne_nil u ts)] at hnil
              exact absurd hnil (by simp)
        have hsplit : (tagsText (t :: ts)).splitOn ',' = t :: ts :=
          List.splitOn_intercalate ',' (fun u hu => (h u hu).2.1) (List.cons_ne_nil t ts)
        have hstrip : (t :: ts).map strip = t :: ts :=
          (List.map_congr_left fun u hu => (h u hu).2.2).trans (List.map_id _)
        rw [readTags, if_neg hne, hsplit, hstrip, List.filter_eq_self]
        exact fun u hu => decide_eq_true (h u hu).1

/-! A key is matched by itself. -/

theorem like_percent (p s : List Char) : like ('%' :: p) s = s.tails.any fun t => like p t := by
  rw [like.eq_def]
  exact if_pos rfl

theorem like_cons {c : Char} (hc : c ≠ '%') (p : List Char) (d : Char) (s : List Char) :
    like (c :: p) (d :: s) = ((c = '_' || c.toLower = d.toLower) && like p s) := by
  rw [like.eq_def]
  exact if_neg hc

theorem like_cons_nil {c : Char} (hc : c ≠ '%') (p : List Char) : like (c :: p) [] = false := by
  rw [like.eq_def]
  exact if_neg hc

theorem like_append {p s : List Char} (h : like p s = true) : like (p ++ ['%']) s = true := by
  induction p generalizing s with
  | nil =>
      obtain rfl := List.isEmpty_iff.mp h
      decide
  | cons c p ih =>
      by_cases hc : c = '%'
      · subst hc
        rw [like_percent] at h
        rw [List.cons_append, like_percent]
        obtain ⟨t, ht, hlike⟩ := List.any_eq_true.mp h
        exact List.any_eq_true.mpr ⟨t, ht, ih hlike⟩
      · cases s with
        | nil =>
            rw [like_cons_nil hc] at h
            cases h
        | cons d s =>
            rw [like_cons hc, Bool.and_eq_true] at h
            rw [List.cons_append, like_cons hc, Bool.and_eq_true]
            exact ⟨h.1, ih h.2⟩

theorem like_wildcard (s : List Char) : like (s.map wildcard) s = true := by
  induction s with
  | nil => rfl
  | cons c s ih =>
      rw [List.map_cons]
      by_cases hpercent : wildcard c = '%'
      · rw [hpercent, like_percent]
        exact List.any_eq_true.mpr ⟨s, (List.mem_tails _ _).mpr (List.suffix_cons c s), ih⟩
      · rw [like_cons hpercent, ih, Bool.and_true, Bool.or_eq_true, decide_eq_true_eq,
          decide_eq_true_eq]
        rw [wildcard] at hpercent ⊢
        split
        · rename_i hstar
          rw [if_pos hstar] at hpercent
          exact absurd rfl hpercent
        · split
          · exact .inl rfl
          · exact .inr rfl

/-- A query for the key itself finds it. -/
theorem like_likePattern (key : String) : like (likePattern key) key.toList = true := by
  rw [likePattern]
  split
  · exact like_wildcard _
  · rw [like_percent]
    exact List.any_eq_true.mpr ⟨key.toList, (List.mem_tails _ _).mpr List.suffix_rfl,
      like_append (like_wildcard _)⟩

/-! What a run of saves leaves of a row. -/

variable {m : LocalMemory} {ns key : String} {row : MemoryRow}

theorem get_maintenance_iff : m.maintenance.rows.get (m.place ns key) = some row ↔
    m.rows.get (m.place ns key) = some row ∧ row ∉ m.excess ns := by
  rw [Table.get_eq_some, Table.get_eq_some, maintenance, List.mem_filter, decide_eq_true_eq,
    and_right_comm]
  refine and_congr_right fun h => ?_
  have hplace := Prod.mk.inj h.2
  rw [hplace.1, (Prod.mk.inj hplace.2).1, and_iff_right rfl]

/-- A save does not have the row removed. -/
def Spares (ns key : String) (m : LocalMemory) (s : Save fl.Num) : Prop :=
  (m.written s).writeCount % m.vacuumInterval = 0 → ∀ r ∈ (m.written s).excess ns, r.key ≠ key

theorem mem_excess {r : MemoryRow} (h : r ∈ m.excess ns) :
    r ∈ m.rows.rows ∧ r.nodeId = m.nodeId ∧ r.ns = ns := by
  have hmem := (List.mem_insertionSort _).mp (List.mem_of_mem_take h)
  obtain ⟨hrows, hplace⟩ := List.mem_filter.mp hmem
  exact ⟨hrows, of_decide_eq_true hplace⟩

theorem get_save_iff {s : Save fl.Num} (h : (m.written s).rows.get (m.place ns key) = some row) :
    (m.save s).rows.get (m.place ns key) = some row ↔ Spares ns key m s := by
  have hspared : row ∉ (m.written s).excess ns ↔ ∀ r ∈ (m.written s).excess ns, r.key ≠ key := by
    obtain ⟨-, hplace⟩ := Table.get_eq_some.mp h
    constructor
    · intro hrow r hr hkey
      obtain ⟨hrows, hnode, hns⟩ := mem_excess hr
      have hget : (m.written s).rows.get (m.place ns key) = some r :=
        Table.get_eq_some.mpr ⟨hrows, by rw [MemoryRow.place, hnode, hns, hkey]; rfl⟩
      rw [h] at hget
      exact hrow (Option.some.inj hget ▸ hr)
    · exact fun hall hrow => hall row hrow (Prod.mk.inj (Prod.mk.inj hplace).2).2
  rw [save, Spares]
  split
  · rename_i hinterval
    exact (get_maintenance_iff.trans (and_iff_right h)).trans
      (hspared.trans (imp_iff_right hinterval).symm)
  · rename_i hinterval
    exact iff_of_true h fun hzero => absurd hzero hinterval

theorem get_of_get_save {s : Save fl.Num} (h : (m.save s).rows.get (m.place ns key) = some row) :
    (m.written s).rows.get (m.place ns key) = some row := by
  rw [save] at h
  split at h
  · exact (get_maintenance_iff.mp h).1
  · exact h

theorem place_written (s : Save fl.Num) :
    (m.written s).rows.get (m.place s.ns s.key) ≠ none ∧
      ∀ row, (m.written s).rows.get (m.place s.ns s.key) = some row →
        row.value = valueText s.value ∧ row.tags = tagsText s.tags := by
  rw [written]
  cases hold : m.rows.get (m.place s.ns s.key) with
  | none =>
      simp only
      rw [show m.place s.ns s.key = MemoryRow.place ⟨m.nodeId, s.ns, s.key, valueText s.value,
        tagsText s.tags, s.now, s.now, 0⟩ from rfl, Table.get_put_self]
      exact ⟨Option.some_ne_none _, fun row hrow => by cases hrow; exact ⟨rfl, rfl⟩⟩
  | some old =>
      have hplace : old.place = m.place s.ns s.key := Table.key_of_get hold
      simp only
      rw [show m.place s.ns s.key = MemoryRow.place { old with
        value := valueText s.value, tags := tagsText s.tags, updatedAt := s.now,
        accessCount := old.accessCount + 1 } from hplace.symm, Table.get_put_self]
      exact ⟨Option.some_ne_none _, fun row hrow => by cases hrow; exact ⟨rfl, rfl⟩⟩

theorem get_written_of_ne {s : Save fl.Num} (h : (s.ns, s.key) ≠ (ns, key)) :
    (m.written s).rows.get (m.place ns key) = m.rows.get (m.place ns key) := by
  have hne : m.place ns key ≠ m.place s.ns s.key := fun hsame => h (Prod.mk.inj hsame).2.symm
  rw [written]
  cases hold : m.rows.get (m.place s.ns s.key) with
  | none => exact Table.get_put_of_ne hne
  | some old =>
      have hplace : old.place = m.place s.ns s.key := Table.key_of_get hold
      exact Table.get_put_of_ne (hplace.symm ▸ hne)

theorem nodeId_save (m : LocalMemory) (s : Save fl.Num) : (m.save s).nodeId = m.nodeId := by
  rw [save]
  split <;> rfl

theorem place_save (s : Save fl.Num) : (m.save s).place ns key = m.place ns key := by
  rw [place, nodeId_save]
  rfl

/-- What save and the other calls leave under a key. -/
def stored (m : LocalMemory) (ns key : String) : Option MemoryRow := m.rows.get (m.place ns key)

theorem stored_save (s : Save fl.Num) :
    (m.save s).stored ns key = (m.save s).rows.get (m.place ns key) := by
  rw [stored, place_save]

theorem stored_foldl_none {others : List (Save fl.Num)}
    (hothers : ∀ s ∈ others, (s.ns, s.key) ≠ (ns, key)) (h : m.stored ns key = none) :
    (others.foldl save m).stored ns key = none := by
  induction others generalizing m with
  | nil => exact h
  | cons s others ih =>
      obtain ⟨hs, hothers⟩ := List.forall_mem_cons.mp hothers
      refine ih hothers ?_
      rw [stored_save]
      refine Option.eq_none_iff_forall_ne_some.mpr fun r hr => ?_
      have hold := get_of_get_save hr
      rw [get_written_of_ne hs, ← stored, h] at hold
      cases hold

/-- A save that finds the row with its text leaves it or has it removed. -/
theorem stored_save_cases {s : Save fl.Num} (h : (m.written s).rows.get (m.place ns key) = some row) :
    Spares ns key m s ∧ (m.save s).stored ns key = some row ∨
      ¬ Spares ns key m s ∧ (m.save s).stored ns key = none := by
  rw [stored_save]
  by_cases hspares : Spares ns key m s
  · exact .inl ⟨hspares, (get_save_iff h).mpr hspares⟩
  · refine .inr ⟨hspares, Option.eq_none_iff_forall_ne_some.mpr fun r hr => hspares ?_⟩
    have hold := get_of_get_save hr
    rw [h] at hold
    rw [← Option.some.inj hold] at hr
    exact (get_save_iff h).mp hr

/-- Saves to other keys leave the row as it is, as long as none has it removed. -/
theorem stored_foldl_cases {others : List (Save fl.Num)}
    (hothers : ∀ s ∈ others, (s.ns, s.key) ≠ (ns, key)) (h : m.stored ns key = some row) :
    Steps save (Spares ns key) m others ∧ (others.foldl save m).stored ns key = some row ∨
      ¬ Steps save (Spares ns key) m others ∧ (others.foldl save m).stored ns key = none := by
  induction others generalizing m with
  | nil => exact .inl ⟨trivial, h⟩
  | cons s others ih =>
      obtain ⟨hs, hothers⟩ := List.forall_mem_cons.mp hothers
      rw [List.foldl_cons, steps_cons]
      rcases stored_save_cases ((get_written_of_ne hs).trans h) with ⟨hspares, hget⟩ | ⟨hspares, hnone⟩
      · rw [and_iff_right hspares]
        exact ih hothers hget
      · exact .inr ⟨fun hboth => hspares hboth.1, stored_foldl_none hothers hnone⟩

/-! The round trip. -/

/-- load returns the value, and each query that the key matches, and whose limit
cuts nothing off, returns it with its tags. -/
def RoundTrips (m : LocalMemory) (ns key : String) (v : Value fl.Num) (tags : List (List Char)) : Prop :=
  (m.load key ns).1 = v ∧
    ∀ (keyPattern : String) (limit : Int), like (likePattern keyPattern) key.toList = true →
      (limit < 0 ∨ ((m.matching keyPattern ns).length : Int) ≤ limit) →
      ∃ e ∈ m.query keyPattern ns limit, e.key = key ∧ e.ns = ns ∧ e.value = v ∧ e.tags = tags

theorem mem_query_iff {keyPattern : String} {limit : Int} {e : MemoryEntry fl.Num}
    (h : limit < 0 ∨ ((m.matching keyPattern ns).length : Int) ≤ limit) :
    e ∈ m.query keyPattern ns limit ↔ ∃ r, r ∈ m.matching keyPattern ns ∧ entry r = e := by
  have hall : limited limit ((m.matching keyPattern ns).insertionSort
      fun a b => b.updatedAt ≤ a.updatedAt) =
      (m.matching keyPattern ns).insertionSort fun a b => b.updatedAt ≤ a.updatedAt := by
    rw [limited]
    split
    · rfl
    · refine List.take_of_length_le ?_
      rw [List.length_insertionSort]
      omega
  rw [query, hall, List.mem_map]
  refine exists_congr fun r => and_congr_left fun _ => List.mem_insertionSort _

theorem mem_matching_iff {keyPattern : String} {r : MemoryRow} : r ∈ m.matching keyPattern ns ↔
    m.rows.get (m.place ns r.key) = some r ∧ like (likePattern keyPattern) r.key.toList = true := by
  rw [matching, List.mem_filter, inNamespace, List.mem_filter, decide_eq_true_eq, Table.get_eq_some]
  refine and_congr_left fun _ => and_congr_right fun _ => ?_
  rw [MemoryRow.place, place, Prod.mk.injEq, Prod.mk.injEq]
  simp

theorem roundTrips_iff_of_stored {v : Value fl.Num} {tags : List (List Char)}
    (h : m.stored ns key = some row) :
    RoundTrips m ns key v tags ↔ readValue row.value = v ∧ readTags row.tags = tags := by
  have hplace : row.place = m.place ns key := Table.key_of_get h
  obtain ⟨hns, hkey⟩ := Prod.mk.inj (Prod.mk.inj hplace).2
  have hload : (m.load key ns).1 = @readValue fl row.value := by
    rw [load, ← stored, h]
  rw [RoundTrips, hload]
  refine and_congr_right fun hvalue => ⟨fun hquery => ?_, fun htags keyPattern limit hlike hlimit => ?_⟩
  · obtain ⟨e, he, hekey, -, -, hetags⟩ := hquery key (-1) (like_likePattern key) (.inl (by decide))
    obtain ⟨r, hr, rfl⟩ := (mem_query_iff (.inl (by decide))).mp he
    have hget := (mem_matching_iff.mp hr).1
    rw [show r.key = key from hekey, ← stored, h] at hget
    rw [Option.some.inj hget]
    exact hetags
  · refine ⟨entry row, (mem_query_iff hlimit).mpr ⟨row, mem_matching_iff.mpr ⟨?_, ?_⟩, rfl⟩, hkey, hns,
      hvalue, htags⟩
    · rw [hkey, ← stored, h]
    · rw [hkey, hlike]

theorem not_roundTrips_of_none {v : Value fl.Num} {tags : List (List Char)}
    (h : m.stored ns key = none) : ¬ RoundTrips m ns key v tags := by
  rintro ⟨-, hquery⟩
  obtain ⟨e, he, hekey, -⟩ := hquery key (-1) (like_likePattern key) (.inl (by decide))
  obtain ⟨r, hr, rfl⟩ := (mem_query_iff (.inl (by decide))).mp he
  have hget := (mem_matching_iff.mp hr).1
  rw [show r.key = key from hekey, ← stored, h] at hget
  cases hget

def fresh : LocalMemory where
  nodeId := "n"
  rows := Table.empty
  interval := by decide

/-- A text with a tag, and a number under another key. -/
def greeting : Save Floats.single.Num where
  key := "k"
  value := .str "hello"
  tags := ["a".toList]
  now := "1"

def number : Save Floats.single.Num where
  key := "k"
  value := .str "1"
  now := "1"

end LocalMemory

end Prodinamik.Memory
