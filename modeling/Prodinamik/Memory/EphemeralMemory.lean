import Prodinamik.Lib.Grouping
import Prodinamik.Lib.LruCache

namespace Prodinamik.Memory

open Lib

variable {V T : Type}

/-- An entry of the store; no value is Python's None. -/
structure EphemeralEntry (V T : Type) where
  key : String
  value : Option V
  createdAt : T
  accessedAt : T
  accessCount : Nat := 0
  deriving DecidableEq, Repr

def EphemeralEntry.shown (e : EphemeralEntry V T) : String × Option V := (e.key, e.value)

structure EphemeralMemory (V T : Type) where
  entries : Table (EphemeralEntry.key (V := V) (T := T)) := .empty
  tags : ListIndex String String := .empty
  maxEntries : Int := 100
  accessCount : Nat := 0

/-- A call, with the times that it reads. -/
inductive MemoryCall (V T : Type)
  | store (key : String) (value : Option V) (tags : List String) (created accessed : T)
  | get (key : String) (default : Option V) (now : T)
  | delete (key : String)
  | clear
  | getByTag (tag : String)
  | contains (key : String)
  | count
  deriving DecidableEq, Repr

/-- What a call returns. -/
inductive MemoryAnswer (V : Type)
  | done
  | value (v : Option V)
  | flag (b : Bool)
  | tagged (rows : List (String × Option V))
  | count (n : Nat)
  deriving DecidableEq, Repr

/-- When a call says that an entry is accessed. -/
def MemoryCall.accessed : MemoryCall V T → Option T
  | .store _ _ _ _ accessed => some accessed
  | .get _ _ now => some now
  | _ => none

/-- The entries with a tag are compared without their order. -/
def MemoryAnswer.Agrees : MemoryAnswer V → MemoryAnswer V → Prop
  | .tagged rows, .tagged rows' => rows.Perm rows'
  | a, b => a = b

namespace EphemeralMemory

def keys (m : EphemeralMemory V T) : List String := m.entries.rows.map EphemeralEntry.key

def contains (m : EphemeralMemory V T) (key : String) : Bool := key ∈ m.keys

def count (m : EphemeralMemory V T) : Nat := m.entries.rows.length

/-- A key is in the list of a tag once. -/
def addTag (key : String) (tags : ListIndex String String) (tag : String) :
    ListIndex String String :=
  if key ∈ tags.entry tag then tags else tags.push tag key

/-- An entry goes, and its key with it from the lists of all tags. -/
def drop (m : EphemeralMemory V T) (key : String) : EphemeralMemory V T :=
  { m with entries := m.entries.erase key, tags := m.tags.forget key }

def delete (m : EphemeralMemory V T) (key : String) : Bool × EphemeralMemory V T :=
  if m.contains key then (true, m.drop key) else (false, m)

def clear (m : EphemeralMemory V T) : EphemeralMemory V T :=
  { m with entries := .empty, tags := .empty, accessCount := 0 }

def getByTag (m : EphemeralMemory V T) (tag : String) : List (String × Option V) :=
  (m.tags.entry tag).filterMap fun key => (m.entries.get key).map EphemeralEntry.shown

def get (m : EphemeralMemory V T) (key : String) (default : Option V) (now : T) :
    Option V × EphemeralMemory V T :=
  match m.entries.get key with
  | none => (default, m)
  | some e => (e.value, { m with
      entries := m.entries.put { e with accessCount := e.accessCount + 1, accessedAt := now }
      accessCount := m.accessCount + 1 })

variable [LinearOrder T]

/-- min() takes the first of the entries that were accessed at the earliest time. -/
def evictOne (m : EphemeralMemory V T) : EphemeralMemory V T :=
  match m.entries.rows.argmin EphemeralEntry.accessedAt with
  | none => m
  | some e => m.drop e.key

/-- At capacity a new key comes in the place of another one. -/
def makeRoom (m : EphemeralMemory V T) (key : String) : EphemeralMemory V T :=
  if m.maxEntries ≤ m.count ∧ key ∉ m.keys then m.evictOne else m

/-- The tags of an entry that is written over stay. -/
def store (m : EphemeralMemory V T) (key : String) (value : Option V) (tags : List String)
    (created accessed : T) : EphemeralMemory V T :=
  let m := m.makeRoom key
  { m with
    entries := m.entries.put ⟨key, value, created, accessed, 0⟩
    tags := tags.foldl (addTag key) m.tags }

def call (m : EphemeralMemory V T) : MemoryCall V T → MemoryAnswer V × EphemeralMemory V T
  | .store key value tags created accessed => (.done, m.store key value tags created accessed)
  | .get key default now => ((m.get key default now).map .value id)
  | .delete key => ((m.delete key).map .flag id)
  | .clear => (.done, m.clear)
  | .getByTag tag => (.tagged (m.getByTag tag), m)
  | .contains key => (.flag (m.contains key), m)
  | .count => (.count m.count, m)

def answers (m : EphemeralMemory V T) : List (MemoryCall V T) → List (MemoryAnswer V)
  | [] => []
  | c :: cs => (m.call c).1 :: answers (m.call c).2 cs

def after (m : EphemeralMemory V T) (cs : List (MemoryCall V T)) : EphemeralMemory V T :=
  cs.foldl (fun m c => (m.call c).2) m

end EphemeralMemory

/-- A value that is remembered under the tags it has been given. -/
structure Remembered (V : Type) where
  value : Option V
  tags : Finset String

/-- A memory without a clock: what is remembered, from the least to the most recently used. -/
abbrev RecentMemory (V : Type) := LruCache String (Remembered V)

namespace RecentMemory

def shown (r : String × Remembered V) : String × Option V := (r.1, r.2.value)

def tagsOf (c : RecentMemory V) (key : String) : Finset String := ((c.find key).map Remembered.tags).getD ∅

def store (size : Int) (c : RecentMemory V) (key : String) (value : Option V) (tags : List String) :
    RecentMemory V :=
  let c := c.makeRoom size key
  c.touch key ⟨value, tagsOf c key ∪ tags.toFinset⟩

def get (c : RecentMemory V) (key : String) (default : Option V) : Option V × RecentMemory V :=
  match c.find key with
  | none => (default, c)
  | some r => (r.value, c.touch key r)

def getByTag (c : RecentMemory V) (tag : String) : List (String × Option V) :=
  (c.rows.filter fun r => tag ∈ r.2.tags).map shown

def call (size : Int) (c : RecentMemory V) : MemoryCall V T → MemoryAnswer V × RecentMemory V
  | .store key value tags _ _ => (.done, c.store size key value tags)
  | .get key default _ => ((get c key default).map .value id)
  | .delete key => (.flag (c.find key).isSome, c.erase key)
  | .clear => (.done, .empty)
  | .getByTag tag => (.tagged (c.getByTag tag), c)
  | .contains key => (.flag (c.find key).isSome, c)
  | .count => (.count c.rows.length, c)

def answers (size : Int) (c : RecentMemory V) : List (MemoryCall V T) → List (MemoryAnswer V)
  | [] => []
  | a :: as => (c.call size a).1 :: answers size (c.call size a).2 as

def after (size : Int) (c : RecentMemory V) (as : List (MemoryCall V T)) : RecentMemory V :=
  as.foldl (fun c a => (c.call size a).2) c

end RecentMemory

namespace EphemeralMemory

variable [LinearOrder T]

theorem mem_rows_evictOne (m : EphemeralMemory V T) {e : EphemeralEntry V T}
    (h : e ∈ m.evictOne.entries.rows) : e ∈ m.entries.rows := by
  rw [evictOne] at h
  split at h
  · exact h
  · exact (Table.mem_rows_erase.mp h).1

theorem mem_rows_makeRoom (m : EphemeralMemory V T) {key : String} {e : EphemeralEntry V T}
    (h : e ∈ (m.makeRoom key).entries.rows) : e ∈ m.entries.rows := by
  rw [makeRoom] at h
  split at h
  · exact m.mem_rows_evictOne h
  · exact h

@[simp]
theorem maxEntries_makeRoom (m : EphemeralMemory V T) (key : String) :
    (m.makeRoom key).maxEntries = m.maxEntries := by
  rw [makeRoom]
  split
  · rw [evictOne]
    split
    · rfl
    · rfl
  · rfl

@[simp]
theorem maxEntries_call (m : EphemeralMemory V T) (a : MemoryCall V T) :
    (m.call a).2.maxEntries = m.maxEntries := by
  cases a with
  | store key value tags created accessed => exact m.maxEntries_makeRoom key
  | get key default now =>
      change (m.get key default now).2.maxEntries = m.maxEntries
      rw [get]
      split
      · rfl
      · rfl
  | delete key =>
      change (m.delete key).2.maxEntries = m.maxEntries
      rw [delete]
      split
      · rfl
      · rfl
  | _ => rfl

/-- An entry was last accessed by the call or was there before. -/
theorem mem_rows_call {m : EphemeralMemory V T} {a : MemoryCall V T} {e : EphemeralEntry V T}
    (h : e ∈ (m.call a).2.entries.rows) : e ∈ m.entries.rows ∨ a.accessed = some e.accessedAt := by
  cases a with
  | store key value tags created accessed =>
      rcases Table.mem_rows_put.mp h with rfl | ⟨he, -⟩
      · exact Or.inr rfl
      · exact Or.inl (m.mem_rows_makeRoom he)
  | get key default now =>
      change e ∈ (m.get key default now).2.entries.rows at h
      rw [get] at h
      split at h
      · exact Or.inl h
      · rcases Table.mem_rows_put.mp h with rfl | ⟨he, -⟩
        · exact Or.inr rfl
        · exact Or.inl he
  | delete key =>
      change e ∈ (m.delete key).2.entries.rows at h
      rw [delete] at h
      split at h
      · exact Or.inl (Table.mem_rows_erase.mp h).1
      · exact Or.inl h
  | clear => exact absurd h List.not_mem_nil
  | _ => exact Or.inl h

end EphemeralMemory

/-- A memory holds what a memory without a clock does, accessed in the order in which that
remembers it, and lists a key under its tags and no others. -/
structure Refines [LinearOrder T] (m : EphemeralMemory V T) (c : RecentMemory V) : Prop where
  byTime : ∃ byTime, Recency EphemeralEntry.accessedAt m.entries byTime ∧
    c.rows.map RecentMemory.shown = byTime.map EphemeralEntry.shown
  nodup : ∀ tag, (m.tags.entry tag).Nodup
  tagged : ∀ tag key, key ∈ m.tags.entry tag ↔ tag ∈ RecentMemory.tagsOf c key

namespace Refines

variable [LinearOrder T] {m : EphemeralMemory V T} {c : RecentMemory V}

theorem map_key_shown (rows : List (EphemeralEntry V T)) :
    (rows.map EphemeralEntry.shown).map Prod.fst = rows.map EphemeralEntry.key := by
  rw [List.map_map]
  rfl

theorem map_fst_shown (rows : List (String × Remembered V)) :
    (rows.map RecentMemory.shown).map Prod.fst = rows.map Prod.fst := by
  rw [List.map_map]
  rfl

theorem perm_shown (h : Refines m c) :
    (c.rows.map RecentMemory.shown).Perm (m.entries.rows.map EphemeralEntry.shown) := by
  obtain ⟨byTime, hrecency, hshown⟩ := h.byTime
  rw [hshown]
  exact hrecency.perm.map _

theorem length_rows (h : Refines m c) : m.count = c.rows.length := by
  have hlength := h.perm_shown.length_eq
  rw [List.length_map, List.length_map] at hlength
  exact hlength.symm

theorem mem_keys (h : Refines m c) {key : String} : key ∈ m.keys ↔ key ∈ c.rows.map Prod.fst := by
  have hperm := h.perm_shown.map Prod.fst
  rw [map_key_shown, map_fst_shown] at hperm
  exact hperm.mem_iff.symm

/-- What is under a key is the same in both. -/
theorem find_eq (h : Refines m c) (key : String) :
    (c.find key).map Remembered.value = (m.entries.get key).map EphemeralEntry.value := by
  cases hfind : c.find key with
  | none =>
      rw [LruCache.find, Option.map_eq_none_iff, Table.get_eq_none] at hfind
      rw [Table.get_eq_none.mpr (mt h.mem_keys.mp hfind)]
      rfl
  | some r =>
      have hmem : (key, r.value) ∈ m.entries.rows.map EphemeralEntry.shown :=
        h.perm_shown.mem_iff.mp (List.mem_map_of_mem (LruCache.find_eq_some.mp hfind))
      obtain ⟨e, he, heq⟩ := List.mem_map.mp hmem
      obtain ⟨rfl, hvalue⟩ := Prod.mk.inj heq
      rw [Table.get_eq_some.mpr ⟨he, rfl⟩, Option.map_some, Option.map_some, hvalue]

theorem contains_eq (h : Refines m c) (key : String) : m.contains key = (c.find key).isSome := by
  have hfind := congrArg Option.isSome (h.find_eq key)
  rw [Option.isSome_map, Option.isSome_map] at hfind
  rw [hfind, EphemeralMemory.contains, EphemeralMemory.keys, Bool.eq_iff_iff, decide_eq_true_eq,
    Option.isSome_iff_ne_none, ne_eq, Table.get_eq_none, not_not]

theorem filter_shown {rows : List (String × Remembered V)} {byTime : List (EphemeralEntry V T)}
    (h : rows.map RecentMemory.shown = byTime.map EphemeralEntry.shown) (key : String) :
    (rows.filter fun r => r.1 ≠ key).map RecentMemory.shown =
      (byTime.filter fun e => e.key ≠ key).map EphemeralEntry.shown := by
  have hfilter := congrArg (List.filter fun x => x.1 ≠ key) h
  rw [List.filter_map, List.filter_map] at hfilter
  exact hfilter

theorem drop (h : Refines m c) (key : String) : Refines (m.drop key) (c.erase key) := by
  obtain ⟨byTime, hrecency, hshown⟩ := h.byTime
  refine ⟨⟨_, hrecency.erase key, filter_shown hshown key⟩, fun tag => ?_, fun tag key' => ?_⟩
  · rw [EphemeralMemory.drop, ListIndex.entry_forget]
    exact (h.nodup tag).erase key
  · rw [EphemeralMemory.drop, ListIndex.entry_forget, (h.nodup tag).mem_erase_iff, h.tagged,
      RecentMemory.tagsOf, RecentMemory.tagsOf, LruCache.find_erase]
    by_cases hkey : key' = key
    · rw [if_pos hkey]
      exact iff_of_false (fun hne => hne.1 hkey) (Finset.notMem_empty tag)
    · rw [if_neg hkey]
      exact and_iff_right hkey

/-- The entry that goes is the one that was used least recently. -/
theorem evictOne (h : Refines m c) : Refines m.evictOne c.popFirst := by
  obtain ⟨byTime, hrecency, hshown⟩ := h.byTime
  rw [EphemeralMemory.evictOne, hrecency.argmin_eq]
  cases hrows : c.rows with
  | nil =>
      rw [hrows, List.map_nil, eq_comm, List.map_eq_nil_iff] at hshown
      rw [hshown, LruCache.popFirst_of_nil hrows]
      exact h
  | cons r rest =>
      rw [hrows] at hshown
      cases byTime with
      | nil => cases hshown
      | cons e byTime =>
          have hkey : r.1 = e.key := congrArg Prod.fst (List.cons.inj hshown).1
          rw [LruCache.popFirst_eq_erase hrows, hkey]
          exact h.drop e.key

theorem makeRoom (h : Refines m c) (key : String) :
    Refines (m.makeRoom key) (c.makeRoom m.maxEntries key) := by
  have hfull : (m.maxEntries ≤ m.count ∧ key ∉ m.keys) ↔
      (m.maxEntries ≤ c.rows.length ∧ key ∉ c.rows.map Prod.fst) := by
    rw [h.length_rows, h.mem_keys]
  rw [EphemeralMemory.makeRoom, LruCache.makeRoom]
  by_cases hroom : m.maxEntries ≤ m.count ∧ key ∉ m.keys
  · rw [if_pos hroom, if_pos (hfull.mp hroom)]
    exact h.evictOne
  · rw [if_neg hroom, if_neg (mt hfull.mpr hroom)]
    exact h

/-- What is accessed after all others is the most recently used. -/
theorem byTime_put (h : Refines m c) {e : EphemeralEntry V T} {r : Remembered V}
    (hvalue : r.value = e.value) (hlater : ∀ b ∈ m.entries.rows, b.accessedAt < e.accessedAt) :
    ∃ byTime, Recency EphemeralEntry.accessedAt (m.entries.put e) byTime ∧
      (c.touch e.key r).rows.map RecentMemory.shown = byTime.map EphemeralEntry.shown := by
  obtain ⟨byTime, hrecency, hshown⟩ := h.byTime
  refine ⟨_, hrecency.put fun b hb _ => hlater b hb, ?_⟩
  rw [LruCache.rows_touch, List.map_append, List.map_append, filter_shown hshown,
    List.map_singleton, List.map_singleton, RecentMemory.shown, hvalue]
  rfl

theorem tagsOf_touch (key key' : String) (r : Remembered V) :
    RecentMemory.tagsOf (c.touch key r) key' =
      if key' = key then r.tags else RecentMemory.tagsOf c key' := by
  rw [RecentMemory.tagsOf, LruCache.find_touch]
  split
  · rfl
  · rfl

theorem get (h : Refines m c) {key : String} {now : T} (default : Option V)
    (hlater : ∀ e ∈ m.entries.rows, e.accessedAt < now) :
    (m.get key default now).1 = (RecentMemory.get c key default).1 ∧
      Refines (m.get key default now).2 (RecentMemory.get c key default).2 := by
  have hfind := h.find_eq key
  rw [EphemeralMemory.get, RecentMemory.get]
  cases he : m.entries.get key with
  | none =>
      rw [he, Option.map_none, Option.map_eq_none_iff] at hfind
      rw [hfind]
      exact ⟨rfl, h⟩
  | some e =>
      cases hr : c.find key with
      | none =>
          rw [he, hr] at hfind
          cases hfind
      | some r =>
          rw [he, hr] at hfind
          have hvalue : r.value = e.value := Option.some.inj hfind
          obtain rfl := Table.key_of_get he
          refine ⟨hvalue.symm, ?_, h.nodup, fun tag key' => ?_⟩
          · exact h.byTime_put (e := { e with accessCount := e.accessCount + 1, accessedAt := now })
              hvalue hlater
          · refine (h.tagged tag key').trans ?_
            rw [tagsOf_touch]
            split
            case isTrue hkey => rw [hkey, RecentMemory.tagsOf, hr]; rfl
            case isFalse => rfl

theorem mem_addTag {key key' tag tag' : String} {tags : ListIndex String String} :
    key' ∈ (EphemeralMemory.addTag key tags tag').entry tag ↔
      key' ∈ tags.entry tag ∨ key' = key ∧ tag = tag' := by
  rw [EphemeralMemory.addTag]
  split
  case isTrue hmem =>
    refine (or_iff_left_of_imp ?_).symm
    rintro ⟨rfl, rfl⟩
    exact hmem
  case isFalse =>
    rw [ListIndex.push, ListIndex.entry_put]
    split
    case isTrue htag => rw [htag, List.mem_append, List.mem_singleton, and_iff_left rfl]
    case isFalse htag => exact (or_iff_left fun hand => htag hand.2).symm

theorem nodup_addTag {key tag tag' : String} {tags : ListIndex String String}
    (h : (tags.entry tag).Nodup) : ((EphemeralMemory.addTag key tags tag').entry tag).Nodup := by
  rw [EphemeralMemory.addTag]
  split
  case isTrue => exact h
  case isFalse hnot =>
    rw [ListIndex.push, ListIndex.entry_put]
    split
    case isTrue htag =>
      rw [← htag] at hnot ⊢
      exact h.append (List.nodup_singleton key) (by simpa using hnot)
    case isFalse => exact h

theorem foldl_addTag (key : String) (new : List String) {tags : ListIndex String String}
    (h : ∀ tag, (tags.entry tag).Nodup) :
    (∀ tag, ((new.foldl (EphemeralMemory.addTag key) tags).entry tag).Nodup) ∧
      ∀ tag key', key' ∈ (new.foldl (EphemeralMemory.addTag key) tags).entry tag ↔
        key' ∈ tags.entry tag ∨ key' = key ∧ tag ∈ new := by
  induction new generalizing tags with
  | nil => exact ⟨h, fun tag key' => (or_iff_left fun hand => List.not_mem_nil hand.2).symm⟩
  | cons tag' new ih =>
      have hfirst : ∀ tag, ((EphemeralMemory.addTag key tags tag').entry tag).Nodup :=
        fun tag => nodup_addTag (h tag)
      obtain ⟨hnodup, hmem⟩ := ih hfirst
      refine ⟨hnodup, fun tag key' => (hmem tag key').trans ?_⟩
      rw [mem_addTag, List.mem_cons, or_assoc, ← and_or_left]

theorem store (h : Refines m c) {key : String} {value : Option V} {tags : List String}
    {created accessed : T} (hlater : ∀ e ∈ m.entries.rows, e.accessedAt < accessed) :
    Refines (m.store key value tags created accessed)
      (RecentMemory.store m.maxEntries c key value tags) := by
  have hroom := h.makeRoom key
  obtain ⟨hnodup, hmem⟩ := foldl_addTag key tags hroom.nodup
  refine ⟨?_, hnodup, fun tag key' => (hmem tag key').trans ?_⟩
  · refine hroom.byTime_put (e := ⟨key, value, created, accessed, 0⟩) rfl fun e he =>
      hlater e (m.mem_rows_makeRoom he)
  · rw [RecentMemory.store, tagsOf_touch, hroom.tagged]
    split
    case isTrue hkey => rw [hkey, Finset.mem_union, List.mem_toFinset, and_iff_right rfl]
    case isFalse hkey => exact or_iff_left fun hand => hkey hand.1

theorem getByTag (h : Refines m c) (tag : String) :
    (m.getByTag tag).Perm (RecentMemory.getByTag c tag) := by
  have hkey : ∀ key x, x ∈ (m.entries.get key).map EphemeralEntry.shown → key = x.1 := by
    rintro key x hx
    obtain ⟨e, he, rfl⟩ := Option.map_eq_some_iff.mp hx
    exact (Table.key_of_get he).symm
  have hnodup : (m.getByTag tag).Nodup :=
    (h.nodup tag).filterMap fun key key' x hx hx' => (hkey key x hx).trans (hkey key' x hx').symm
  have hnodup' : (RecentMemory.getByTag c tag).Nodup := by
    refine List.Nodup.of_map Prod.fst ?_
    rw [RecentMemory.getByTag, map_fst_shown]
    exact c.nodup.sublist (List.filter_sublist.map Prod.fst)
  refine (List.perm_ext_iff_of_nodup hnodup hnodup').mpr fun x => ?_
  rw [EphemeralMemory.getByTag, List.mem_filterMap, RecentMemory.getByTag, List.mem_map]
  constructor
  · rintro ⟨key, hmem, hx⟩
    obtain rfl := hkey key x hx
    obtain ⟨e, he, hshown⟩ := Option.map_eq_some_iff.mp hx
    have hfind := h.find_eq x.1
    rw [he] at hfind
    obtain ⟨r, hr, hvalue⟩ := Option.map_eq_some_iff.mp hfind
    have htag := (h.tagged tag x.1).mp hmem
    rw [RecentMemory.tagsOf, hr] at htag
    refine ⟨(x.1, r), List.mem_filter.mpr ⟨LruCache.find_eq_some.mp hr, decide_eq_true htag⟩, ?_⟩
    exact Prod.ext rfl (hvalue.trans (congrArg Prod.snd hshown))
  · rintro ⟨r, hr, rfl⟩
    obtain ⟨hrow, htag⟩ := List.mem_filter.mp hr
    have hfind : c.find r.1 = some r.2 := LruCache.find_eq_some.mpr hrow
    have hvalue := h.find_eq r.1
    rw [hfind] at hvalue
    obtain ⟨e, he, hvalue⟩ := Option.map_eq_some_iff.mp hvalue.symm
    refine ⟨r.1, (h.tagged tag r.1).mpr ?_, ?_⟩
    · rw [RecentMemory.tagsOf, hfind]
      exact of_decide_eq_true htag
    · rw [he]
      have hkey : e.key = r.1 := Table.key_of_get he
      exact congrArg some (Prod.ext hkey hvalue)

/-- Every call is answered alike, and the memories stay alike. -/
theorem call (h : Refines m c) {a : MemoryCall V T}
    (hlater : ∀ t, a.accessed = some t → ∀ e ∈ m.entries.rows, e.accessedAt < t) :
    (m.call a).1.Agrees (RecentMemory.call m.maxEntries c a).1 ∧
      Refines (m.call a).2 (RecentMemory.call m.maxEntries c a).2 := by
  cases a with
  | store key value tags created accessed => exact ⟨rfl, h.store (hlater accessed rfl)⟩
  | get key default now =>
      obtain ⟨hvalue, hafter⟩ := h.get default (hlater now rfl)
      exact ⟨congrArg MemoryAnswer.value hvalue, hafter⟩
  | delete key =>
      have hcontains := h.contains_eq key
      change (MemoryAnswer.flag (m.delete key).1).Agrees (.flag (c.find key).isSome) ∧
        Refines (m.delete key).2 (c.erase key)
      rw [EphemeralMemory.delete, hcontains]
      split
      case isTrue hsome => exact ⟨congrArg MemoryAnswer.flag hsome.symm, h.drop key⟩
      case isFalse hnone =>
        have hget : Table.get c key = none := by
          rw [Bool.not_eq_true, Option.isSome_eq_false_iff, Option.isNone_iff_eq_none] at hnone
          exact Option.map_eq_none_iff.mp hnone
        rw [Table.erase_of_get_eq_none hget]
        exact ⟨congrArg MemoryAnswer.flag (Bool.eq_false_iff.mpr hnone).symm, h⟩
  | clear =>
      refine ⟨rfl, ⟨[], .empty, rfl⟩, fun tag => List.nodup_nil, fun tag key => ?_⟩
      exact iff_of_false List.not_mem_nil (Finset.notMem_empty tag)
  | getByTag tag => exact ⟨h.getByTag tag, h⟩
  | contains key => exact ⟨congrArg MemoryAnswer.flag (h.contains_eq key), h⟩
  | count => exact ⟨congrArg MemoryAnswer.count h.length_rows, h⟩

theorem run (h : Refines m c) {as : List (MemoryCall V T)}
    (hclock : (as.filterMap MemoryCall.accessed).Pairwise (· < ·))
    (hlater : ∀ t ∈ as.filterMap MemoryCall.accessed, ∀ e ∈ m.entries.rows, e.accessedAt < t) :
    List.Forall₂ MemoryAnswer.Agrees (m.answers as) (RecentMemory.answers m.maxEntries c as) ∧
      Refines (m.after as) (RecentMemory.after m.maxEntries c as) := by
  induction as generalizing m c with
  | nil => exact ⟨.nil, h⟩
  | cons a as ih =>
      have hhead : ∀ t, a.accessed = some t → t ∈ (a :: as).filterMap MemoryCall.accessed :=
        fun t ht => List.mem_filterMap.mpr ⟨a, List.mem_cons_self, ht⟩
      have htail : (as.filterMap MemoryCall.accessed).Sublist
          ((a :: as).filterMap MemoryCall.accessed) := (List.sublist_cons_self a as).filterMap _
      obtain ⟨hanswer, hafter⟩ := h.call fun t ht => hlater t (hhead t ht)
      obtain ⟨hanswers, hrest⟩ := ih hafter (hclock.sublist htail) fun t ht e he => by
        rcases EphemeralMemory.mem_rows_call he with hold | hnew
        · exact hlater t (htail.subset ht) e hold
        · rw [List.filterMap_cons_some hnew] at hclock
          exact (List.pairwise_cons.mp hclock).1 t ht
      rw [EphemeralMemory.maxEntries_call] at hanswers hrest
      exact ⟨.cons hanswer hanswers, hrest⟩

theorem fresh (size : Int) :
    Refines ({ maxEntries := size } : EphemeralMemory V T) (.empty : RecentMemory V) := by
  refine ⟨⟨[], .empty, rfl⟩, fun tag => List.nodup_nil, fun tag key => ?_⟩
  exact iff_of_false List.not_mem_nil (Finset.notMem_empty tag)

end Refines

namespace RecentMemory

theorem length_empty_le {size : Int} :
    (((.empty : RecentMemory V).rows.length : Int)) ≤ max 1 size := by
  have hone := le_max_left 1 size
  change ((0 : Nat) : Int) ≤ max 1 size
  omega

theorem length_call_le {size : Int} {c : RecentMemory V} (h : (c.rows.length : Int) ≤ max 1 size)
    (a : MemoryCall V T) : (((c.call size a).2.rows.length : Int)) ≤ max 1 size := by
  have herase : ∀ key, (Table.erase c key).rows.length ≤ c.rows.length :=
    fun key => List.length_filter_le _ c.rows
  cases a with
  | store key value tags created accessed => exact LruCache.length_touch_makeRoom h key _
  | get key default now =>
      change (((get c key default).2.rows.length : Int)) ≤ max 1 size
      rw [get]
      cases hr : c.find key with
      | none => exact h
      | some r =>
          have hmem : key ∈ c.rows.map Prod.fst :=
            List.mem_map_of_mem (LruCache.find_eq_some.mp hr)
          have hroom : c.makeRoom size key = c := if_neg fun hfull => hfull.2 hmem
          have hlength := LruCache.length_touch_makeRoom h key r
          rwa [hroom] at hlength
  | delete key => exact (Int.ofNat_le.mpr (herase key)).trans h
  | clear => exact length_empty_le
  | _ => exact h

theorem length_after_le {size : Int} {c : RecentMemory V} (h : (c.rows.length : Int) ≤ max 1 size)
    (as : List (MemoryCall V T)) : ((c.after size as).rows.length : Int) ≤ max 1 size := by
  induction as generalizing c with
  | nil => exact h
  | cons a as ih => exact ih (length_call_le h a)

end RecentMemory

/-- Whatever is asked of a new memory, as long as its clock goes on, it answers as one
that keeps what was used most recently and has no clock at all. It has room for one entry
even where it should have none. -/
theorem answers_recent [LinearOrder T] (size : Int) {as : List (MemoryCall V T)}
    (hclock : (as.filterMap MemoryCall.accessed).Pairwise (· < ·)) :
    List.Forall₂ MemoryAnswer.Agrees (({ maxEntries := size } : EphemeralMemory V T).answers as)
        (RecentMemory.answers size .empty as) ∧
      ((({ maxEntries := size } : EphemeralMemory V T).after as).count : Int) ≤ max 1 size := by
  obtain ⟨hanswers, hafter⟩ :=
    (Refines.fresh size).run hclock fun _ _ _ he => absurd he List.not_mem_nil
  refine ⟨hanswers, ?_⟩
  rw [hafter.length_rows]
  exact RecentMemory.length_after_le RecentMemory.length_empty_le as

/-- Reading the goal makes it outlive the step that was stored after it. -/
def plan : List (MemoryCall Nat Nat) :=
  [.store "goal" (some 1) ["plan"] 1 2, .store "step" (some 2) ["plan"] 3 4, .get "goal" none 5,
    .store "tool" none [] 6 7, .getByTag "plan", .get "step" none 8]

theorem answers_recent_plan :
    ({ maxEntries := 2 } : EphemeralMemory Nat Nat).answers plan =
        [.done, .done, .value (some 1), .done, .tagged [("goal", some 1)], .value none] ∧
      List.Forall₂ MemoryAnswer.Agrees (({ maxEntries := 2 } : EphemeralMemory Nat Nat).answers plan)
        (RecentMemory.answers 2 .empty plan) ∧
      ((({ maxEntries := 2 } : EphemeralMemory Nat Nat).after plan).count : Int) ≤ max 1 2 :=
  ⟨by decide, answers_recent 2 (by decide)⟩

/-- The key that a call makes the most recently used, if it has it. -/
def MemoryCall.used : MemoryCall V T → Option String
  | .store key _ _ _ _ => some key
  | .get key _ _ => some key
  | _ => none

/-- A call after which a value is still there. -/
def MemoryCall.Spares (key : String) : MemoryCall V T → Prop
  | .store key' _ _ _ _ => key' ≠ key
  | .delete key' => key' ≠ key
  | .clear => False
  | _ => True

def othersUsed (key : String) (as : List (MemoryCall V T)) : Finset String :=
  ((as.filterMap MemoryCall.used).filter (· ≠ key)).toFinset

namespace RecentMemory

variable {c : RecentMemory V} {key : String} {r : Remembered V} {used : Finset String} {size : Int}

theorem recent_store (size : Int) (c : RecentMemory V) (key : String) (value : Option V)
    (tags : List String) (used : Finset String) : LruCache.Recent (c.store size key value tags) key
      ⟨value, tagsOf (c.makeRoom size key) key ∪ tags.toFinset⟩ used :=
  LruCache.recent_touch _ _ _ _

theorem recent_call (h : LruCache.Recent c key r used) {a : MemoryCall V T} (ha : a.Spares key)
    (hused : ∀ k, a.used = some k → k ≠ key → k ∈ used) (hcard : (used.card : Int) < size) :
    LruCache.Recent (c.call size a).2 key r used := by
  cases a with
  | store key' value tags created accessed =>
      have hmem := hused key' rfl ha
      exact (h.makeRoom hmem hcard).touch ha hmem
  | get key' default now =>
      change LruCache.Recent (get c key' default).2 key r used
      rw [get]
      by_cases hkey : key' = key
      · rw [hkey, h.find]
        exact LruCache.recent_touch c key r used
      · split
        · exact h
        · exact h.touch hkey (hused key' rfl hkey)
  | delete key' => exact h.erase ha
  | clear => exact ha.elim
  | _ => exact h

theorem recent_after (h : LruCache.Recent c key r used) {as : List (MemoryCall V T)}
    (has : ∀ a ∈ as, a.Spares key) (hused : othersUsed key as ⊆ used)
    (hcard : (used.card : Int) < size) : LruCache.Recent (c.after size as) key r used := by
  induction as generalizing c with
  | nil => exact h
  | cons a as ih =>
      obtain ⟨ha, has⟩ := List.forall_mem_cons.mp has
      have hmem : ∀ b ∈ a :: as, ∀ k, b.used = some k → k ≠ key → k ∈ used := by
        intro b hb k hk hne
        refine hused (List.mem_toFinset.mpr (List.mem_filter.mpr ⟨?_, decide_eq_true hne⟩))
        exact List.mem_filterMap.mpr ⟨b, hb, hk⟩
      refine ih (recent_call h ha (hmem a List.mem_cons_self) hcard) has fun k hk => ?_
      obtain ⟨hk, hne⟩ := List.mem_filter.mp (List.mem_toFinset.mp hk)
      obtain ⟨b, hb, hk⟩ := List.mem_filterMap.mp hk
      exact hmem b (List.mem_cons_of_mem a hb) k hk (of_decide_eq_true hne)

end RecentMemory

end Prodinamik.Memory
