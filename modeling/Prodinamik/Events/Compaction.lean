import Prodinamik.Events.Pages

namespace Prodinamik.Events

open Lib.Run

namespace EventStore

variable (policy : EventRetentionPolicy)

/-- A time without a zone before the cutoff. -/
def before (cutoff : Int) : IsoTime → Bool
  | .naive time => time < cutoff
  | .aware => false

def isOld (cutoff : Int) (e : Event) : Bool :=
  (policy.fromisoformat e.timestamp).any (before cutoff)

/-- The event of a number if it is old. -/
def oldAt (dir : EventDir) (cutoff : Int) (n : Nat) : Option Event :=
  ((dir.files.lookup n).bind EventDir.parseEvent).filter (isOld policy cutoff)

/-- A file of the number holds an event, and its time has no zone. -/
def Comparable (dir : EventDir) (n : Nat) : Prop :=
  ∀ file, dir.files.lookup n = some file →
    ∃ e, file = .holds e ∧ policy.fromisoformat e.timestamp ≠ some .aware

instance decidableComparable (dir : EventDir) (n : Nat) : Decidable (Comparable policy dir n) :=
  match hfile : dir.files.lookup n with
  | none => isTrue fun file h => by cases hfile.symm.trans h
  | some .unreadable => isFalse fun h => by
      obtain ⟨_, heq, -⟩ := h _ hfile
      cases heq
  | some (.holds e) =>
      decidable_of_iff (policy.fromisoformat e.timestamp ≠ some .aware)
        ⟨fun h file heq => ⟨e, (Option.some.inj (hfile.symm.trans heq)).symm, h⟩, fun h => by
          obtain ⟨_, heq, hzone⟩ := h _ hfile
          cases heq
          exact hzone⟩

variable {policy} {s : EventStore}

theorem oldEvents_cons_ok {dir : EventDir} {cutoff : Int} {n : Nat} (h : Comparable policy dir n)
    (index : List Nat) : oldEvents policy dir cutoff (n :: index) =
      (oldEvents policy dir cutoff index).map fun es => (oldAt policy dir cutoff n).toList ++ es := by
  have hsame : oldEvents policy dir cutoff index =
      (oldEvents policy dir cutoff index).map fun es => es := by
    cases oldEvents policy dir cutoff index <;> rfl
  have hskip (e : Event) (hnot : isOld policy cutoff e = false) :
      (some e).filter (isOld policy cutoff) = none := by
    rw [Option.filter_some, hnot, if_neg Bool.false_ne_true]
  cases hfile : dir.files.lookup n with
  | none =>
      simp only [oldEvents, oldAt, hfile]
      exact hsame
  | some file =>
      obtain ⟨e, rfl, hzone⟩ := h file hfile
      simp only [oldEvents, oldAt, hfile, Option.bind_some, EventDir.parseEvent]
      cases htime : policy.fromisoformat e.timestamp with
      | none =>
          rw [hskip e (by rw [isOld, htime]; rfl)]
          exact hsame
      | some iso =>
          cases iso with
          | aware => exact absurd htime hzone
          | naive time =>
              have hold : isOld policy cutoff e = decide (time < cutoff) := by
                rw [isOld, htime]
                rfl
              by_cases hlt : time < cutoff
              · rw [Option.filter_some, hold, if_pos (decide_eq_true hlt)]
                exact if_pos hlt
              · rw [hskip e (hold.trans (decide_eq_false hlt))]
                exact (if_neg hlt).trans hsame

theorem oldEvents_cons_error {dir : EventDir} {cutoff : Int} {n : Nat}
    (h : ¬ Comparable policy dir n) (index : List Nat) :
    ∃ err, oldEvents policy dir cutoff (n :: index) = .error err := by
  obtain ⟨file, hbad⟩ := not_forall.mp h
  obtain ⟨hfile, hbad⟩ := Classical.not_imp.mp hbad
  cases file with
  | unreadable =>
      simp only [oldEvents, hfile, EventDir.parseEvent]
      exact ⟨_, rfl⟩
  | holds e =>
      have hzone : policy.fromisoformat e.timestamp = some .aware := by
        by_contra hzone
        exact hbad ⟨e, rfl, hzone⟩
      simp only [oldEvents, hfile, EventDir.parseEvent, hzone]
      exact ⟨_, rfl⟩

/-- The loop of compact collects the old events if all can be compared. -/
theorem oldEvents_ok {dir : EventDir} {cutoff : Int} {index : List Nat}
    (h : ∀ n ∈ index, Comparable policy dir n) :
    oldEvents policy dir cutoff index = .ok (index.filterMap (oldAt policy dir cutoff)) := by
  induction index with
  | nil => rfl
  | cons n index ih =>
      obtain ⟨hn, hindex⟩ := List.forall_mem_cons.mp h
      rw [oldEvents_cons_ok hn, ih hindex, List.filterMap_cons]
      cases oldAt policy dir cutoff n <;> rfl

theorem oldEvents_error {dir : EventDir} {cutoff : Int} {index : List Nat}
    (h : ¬ ∀ n ∈ index, Comparable policy dir n) :
    ∃ err, oldEvents policy dir cutoff index = .error err := by
  induction index with
  | nil => exact absurd (fun n hn => absurd hn List.not_mem_nil) h
  | cons n index ih =>
      by_cases hn : Comparable policy dir n
      · obtain ⟨err, herr⟩ := ih fun hindex => h (List.forall_mem_cons.mpr ⟨hn, hindex⟩)
        exact ⟨err, by rw [oldEvents_cons_ok hn, herr]; rfl⟩
      · exact oldEvents_cons_error hn index

theorem Sound.oldAt_sequence (h : s.Sound) {cutoff : Int} {n : Nat} {e : Event}
    (he : oldAt policy s.dir cutoff n = some e) :
    s.dir.files.lookup n = some (.holds e) ∧ e.sequence = n := by
  obtain ⟨hbind, -⟩ := Option.filter_eq_some_iff.mp he
  obtain ⟨file, hfile, hparse⟩ := Option.bind_eq_some_iff.mp hbind
  cases file with
  | unreadable => cases hparse
  | holds e' =>
      cases hparse
      exact ⟨hfile, (h.dir.numbered n e hfile).1⟩

variable (policy) in
/-- The events that a compaction now would compact. -/
def old (s : EventStore) (now : Int) : List Event :=
  s.index.filterMap (oldAt policy s.dir (now - EventRetentionPolicy.compactionAge))

def IsDetail (e : Event) : Prop := e.eventType = EventType.validationDetail.value

instance : DecidablePred IsDetail := fun e =>
  inferInstanceAs (Decidable (e.eventType = EventType.validationDetail.value))

variable (policy) in
/-- The numbers of the detailed events that a compaction now removes. -/
def details (s : EventStore) (now : Int) : List Nat :=
  ((s.old policy now).filter IsDetail).map Event.sequence

variable (policy) in
/-- The store after the details are removed. -/
def withoutDetails (s : EventStore) (now : Int) : EventStore where
  dir := s.dir.performAll ((s.details policy now).map .unlink)
  lastSequence := s.lastSequence
  index := s.index.filter fun n => n ∉ s.details policy now

theorem Sound.mem_old (h : s.Sound) {now : Int} {e : Event} (he : e ∈ s.old policy now) :
    e.sequence ∈ s.index ∧ s.dir.files.lookup e.sequence = some (.holds e) := by
  obtain ⟨n, hn, hold⟩ := List.mem_filterMap.mp he
  obtain ⟨hfile, rfl⟩ := h.oldAt_sequence hold
  exact ⟨hn, hfile⟩

theorem Sound.old_sublist (h : s.Sound) (now : Int) :
    ((s.old policy now).map Event.sequence).Sublist s.index := by
  have hnumbers (index : List Nat) : ((index.filterMap (oldAt policy s.dir
      (now - EventRetentionPolicy.compactionAge))).map Event.sequence).Sublist index := by
    induction index with
    | nil => exact List.Sublist.refl []
    | cons n index ih =>
        rw [List.filterMap_cons]
        cases hold : oldAt policy s.dir (now - EventRetentionPolicy.compactionAge) n with
        | none => exact ih.cons n
        | some e =>
            rw [List.map_cons, (h.oldAt_sequence hold).2]
            exact ih.cons_cons n
  exact hnumbers s.index

theorem Sound.mem_details (h : s.Sound) {now : Int} {e : Event} (he : e ∈ s.old policy now) :
    e.sequence ∈ s.details policy now ↔ IsDetail e := by
  constructor
  · intro hmem
    obtain ⟨e', he', hsame⟩ := List.mem_map.mp hmem
    obtain ⟨he', hdetail⟩ := List.mem_filter.mp he'
    have hfile := (h.mem_old he').2
    rw [hsame, (h.mem_old he).2] at hfile
    cases hfile
    exact of_decide_eq_true hdetail
  · exact fun hdetail => List.mem_map_of_mem (List.mem_filter.mpr ⟨he, decide_eq_true hdetail⟩)

/-- Events of the index that are in their files are removed one by one. -/
theorem removeDetails_ok {dir : EventDir} {es : List Event} {index : List Nat}
    (hindex : index.Nodup) (hes : (es.map Event.sequence).Nodup)
    (hmem : ∀ e ∈ es, e.sequence ∈ index ∧ (dir.files.lookup e.sequence).isSome) :
    removeDetails dir es index = ((es.map Event.sequence).map .unlink,
      index.filter fun n => n ∉ es.map Event.sequence, .ok ()) := by
  induction es generalizing index with
  | nil => simp [removeDetails]
  | cons e es ih =>
      obtain ⟨hnew, hes⟩ := List.nodup_cons.mp hes
      obtain ⟨⟨hin, hfile⟩, hmem⟩ := List.forall_mem_cons.mp hmem
      have hrest : ∀ e' ∈ es, e'.sequence ∈ index.erase e.sequence ∧
          (dir.files.lookup e'.sequence).isSome := by
        intro e' he'
        refine ⟨(List.mem_erase_of_ne fun heq => hnew ?_).mpr (hmem e' he').1, (hmem e' he').2⟩
        exact heq ▸ List.mem_map_of_mem he'
      rw [removeDetails, if_pos hin, if_pos hfile, ih (hindex.erase _) hes hrest,
        hindex.erase_eq_filter, List.filter_filter]
      refine congrArg₂ Prod.mk rfl (congrArg₂ Prod.mk (List.filter_congr fun n _ => ?_) rfl)
      by_cases hn : n = e.sequence <;> simp [hn]

variable (policy) in
/-- The event that is appended, before it has its number. -/
def summary (s : EventStore) (slug : String) (now : Int) (nowText : String) : Event :=
  (s.withoutDetails policy now).summarize (s.old policy now) slug nowText

/-- Where an event cannot be compared, compact raises. -/
theorem compact_raises (h : ¬ ∀ n ∈ s.index, Comparable policy s.dir n) (slug : String) (now : Int)
    (nowText : String) :
    ∃ err, s.compact policy slug now nowText = ⟨[], s.lastSequence, s.index, .error err⟩ := by
  obtain ⟨err, herr⟩ : ∃ err, oldEvents policy s.dir (now - EventRetentionPolicy.compactionAge)
      s.index = .error err := oldEvents_error h
  exact ⟨err, by rw [compact, herr]⟩

theorem compact_few (h : ∀ n ∈ s.index, Comparable policy s.dir n) {now : Int}
    (hfew : (s.old policy now).length < 10) (slug nowText : String) :
    s.compact policy slug now nowText = ⟨[], s.lastSequence, s.index, .ok none⟩ := by
  rw [compact, oldEvents_ok h]
  exact if_pos hfew

/-- The details go, and then the summary is appended; the index is saved twice. -/
theorem Sound.compact_many (hs : s.Sound) (h : ∀ n ∈ s.index, Comparable policy s.dir n) {now : Int}
    (hmany : 10 ≤ (s.old policy now).length) (slug nowText : String) :
    let seq := s.lastSequence + 1
    let summary := { s.summary policy slug now nowText with sequence := seq }
    let index := addKey (s.withoutDetails policy now).index seq
    s.compact policy slug now nowText =
      { writes := (s.details policy now).map .unlink ++
          [.event seq (.holds summary), .index index] ++ [.index index]
        lastSequence := seq
        index := index
        result := .ok (some summary) } := by
  have hremoved : removeDetails s.dir ((s.old policy now).filter fun e =>
      e.eventType = EventType.validationDetail.value) s.index =
      ((s.details policy now).map .unlink, (s.withoutDetails policy now).index, .ok ()) := by
    refine removeDetails_ok hs.nodup ?_ fun e he => ?_
    · exact (hs.nodup.sublist (hs.old_sublist now)).sublist (List.filter_sublist.map _)
    · obtain ⟨hin, hfile⟩ := hs.mem_old (List.mem_filter.mp he).1
      exact ⟨hin, by rw [hfile]; rfl⟩
  have hold : oldEvents policy s.dir (now - EventRetentionPolicy.compactionAge) s.index =
      .ok (s.old policy now) := oldEvents_ok h
  have hnot : ¬ (s.old policy now).length < EventRetentionPolicy.compactionBatch := not_lt.mpr hmany
  simp only [compact, hold, if_neg hnot, hremoved]
  rfl

/-- The files after a compaction that goes through. -/
theorem Sound.lookup_many (hs : s.Sound) (h : ∀ n ∈ s.index, Comparable policy s.dir n) {now : Int}
    (hmany : 10 ≤ (s.old policy now).length) (slug nowText : String) (n : Nat) :
    (s.after (s.compact policy slug now nowText)).dir.files.lookup n =
      if n = s.lastSequence + 1 then
        some (.holds { s.summary policy slug now nowText with sequence := s.lastSequence + 1 })
      else if n ∈ s.details policy now then none else s.dir.files.lookup n := by
  rw [EventStore.after, hs.compact_many h hmany, EventDir.performAll, List.foldl_append,
    List.foldl_append]
  change ((s.dir.performAll ((s.details policy now).map .unlink)).perform (.event _ _)).files.lookup n = _
  rw [EventDir.lookup_event, EventDir.lookup_unlinks]

/-- The old events that a compaction leaves where they are. -/
def rest (policy : EventRetentionPolicy) (s : EventStore) (now : Int) : List Event :=
  (s.old policy now).filter fun e => ¬ IsDetail e ∧ e.sequence ≠ s.lastSequence + 1

/-- A text of the time now or a later one. -/
def TimeText (policy : EventRetentionPolicy) (now : Int) (nowText : String) : Prop :=
  ∃ time, policy.fromisoformat nowText = some (.naive time) ∧ now ≤ time

section Many

variable (hs : s.Sound) (h : ∀ n ∈ s.index, Comparable policy s.dir n) {now : Int}
  (hmany : 10 ≤ (s.old policy now).length) (slug : String) {nowText : String}
  (htext : TimeText policy now nowText)
include hs h hmany

theorem index_many : (s.after (s.compact policy slug now nowText)).index =
    addKey (s.index.filter fun n => n ∉ s.details policy now) (s.lastSequence + 1) := by
  rw [after, hs.compact_many h hmany]
  rfl

/-- A compaction does not raise the number of events where it removes one or takes a number of the
index again. -/
theorem eventCount_many : (s.after (s.compact policy slug now nowText)).eventCount ≤ s.eventCount ↔
    (∃ e ∈ s.old policy now, IsDetail e) ∨ s.lastSequence + 1 ∈ s.index := by
  have hle : (s.index.filter fun n => n ∉ s.details policy now).length ≤ s.index.length :=
    List.length_filter_le _ _
  have hlt : (s.index.filter fun n => n ∉ s.details policy now).length < s.index.length ↔
      ∃ e ∈ s.old policy now, IsDetail e := by
    rw [List.length_filter_lt_length_iff_exists]
    constructor
    · rintro ⟨n, -, hn⟩
      rw [decide_eq_true_iff, not_not] at hn
      obtain ⟨e, he, -⟩ := List.mem_map.mp hn
      obtain ⟨he, hdetail⟩ := List.mem_filter.mp he
      exact ⟨e, he, of_decide_eq_true hdetail⟩
    · rintro ⟨e, he, hdetail⟩
      refine ⟨e.sequence, (hs.mem_old he).1, ?_⟩
      rw [decide_eq_true_iff, not_not]
      exact (hs.mem_details he).mpr hdetail
  rw [eventCount, eventCount, index_many hs h hmany, addKey]
  split
  case isTrue hin => exact iff_of_true hle (.inr (List.mem_filter.mp hin).1)
  case isFalse hnot =>
    rw [List.length_append, List.length_singleton, Nat.succ_le_iff, hlt]
    refine (or_iff_left_of_imp fun hin => ?_).symm
    rw [List.mem_filter, not_and, decide_eq_true_iff, not_not] at hnot
    obtain ⟨e, he, -⟩ := List.mem_map.mp (hnot hin)
    obtain ⟨he, hdetail⟩ := List.mem_filter.mp he
    exact ⟨e, he, of_decide_eq_true hdetail⟩

include htext

theorem comparable_many : ∀ n ∈ (s.after (s.compact policy slug now nowText)).index,
    Comparable policy (s.after (s.compact policy slug now nowText)).dir n := by
  intro n hn file hfile
  rw [hs.lookup_many h hmany] at hfile
  split at hfile
  case isTrue =>
    cases hfile
    obtain ⟨time, htime, -⟩ := htext
    exact ⟨_, rfl, fun hzone => by cases htime.symm.trans hzone⟩
  case isFalse hne =>
    split at hfile
    case isTrue => cases hfile
    case isFalse =>
      rw [index_many hs h hmany, mem_addKey, List.mem_filter] at hn
      exact h n (hn.resolve_left hne).1 file hfile

/-- The events that are old after a compaction. -/
theorem old_many : (s.after (s.compact policy slug now nowText)).old policy now = s.rest policy now := by
  have hsummary : oldAt policy (s.after (s.compact policy slug now nowText)).dir
      (now - EventRetentionPolicy.compactionAge) (s.lastSequence + 1) = none := by
    obtain ⟨time, htime, hle⟩ := htext
    have hage : 0 < EventRetentionPolicy.compactionAge := by decide
    have hnew : isOld policy (now - EventRetentionPolicy.compactionAge)
        { s.summary policy slug now nowText with sequence := s.lastSequence + 1 } = false := by
      change (policy.fromisoformat nowText).any _ = false
      rw [htime]
      exact decide_eq_false (by omega)
    rw [oldAt, hs.lookup_many h hmany, if_pos rfl, Option.bind_some, EventDir.parseEvent,
      Option.filter_some, hnew, if_neg Bool.false_ne_true]
  have hkept : (s.index.filter fun n => n ∉ s.details policy now).filterMap
      (oldAt policy (s.after (s.compact policy slug now nowText)).dir
        (now - EventRetentionPolicy.compactionAge)) = s.rest policy now := by
    rw [rest, old, List.filterMap_filter, List.filter_filterMap]
    refine List.filterMap_congr fun n hn => ?_
    have hmem {e : Event} (he : oldAt policy s.dir (now - EventRetentionPolicy.compactionAge) n =
        some e) : e.sequence = n ∧ (n ∈ s.details policy now ↔ IsDetail e) := by
      have hseq := (hs.oldAt_sequence he).2
      refine ⟨hseq, ?_⟩
      rw [← hseq]
      exact hs.mem_details (List.mem_filterMap.mpr ⟨n, hn, he⟩)
    by_cases hlast : n = s.lastSequence + 1
    · rw [hlast, hsummary, ite_self, ← hlast]
      refine (Option.filter_eq_none_iff.mpr fun e he hq => ?_).symm
      exact (of_decide_eq_true hq).2 (hmem he).1
    · by_cases hdetail : n ∈ s.details policy now
      · rw [if_neg (by simpa using hdetail)]
        refine (Option.filter_eq_none_iff.mpr fun e he hq => ?_).symm
        exact (of_decide_eq_true hq).1 ((hmem he).2.mp hdetail)
      · rw [if_pos (by simpa using hdetail), oldAt, hs.lookup_many h hmany, if_neg hlast,
          if_neg hdetail, ← oldAt]
        cases he : oldAt policy s.dir (now - EventRetentionPolicy.compactionAge) n with
        | none => rfl
        | some e =>
            have hstays : ¬ IsDetail e ∧ e.sequence ≠ s.lastSequence + 1 :=
              ⟨fun hd => hdetail ((hmem he).2.mpr hd),
                fun heq => hlast ((hmem he).1.symm.trans heq)⟩
            rw [Option.filter_some, if_pos (decide_eq_true hstays)]
  rw [old, index_many hs h hmany, addKey]
  split
  · exact hkept
  · rw [List.filterMap_append, hkept, List.filterMap_cons, hsummary, List.filterMap_nil]
    exact List.append_nil _

end Many

end EventStore

/-- A store, the numbers of its events that are counted in a summary, and those that a compaction
has left where they were. -/
structure Compacting where
  store : EventStore
  summarised : List Nat := []
  left : List Nat := []

namespace Compacting

variable (policy : EventRetentionPolicy)

def start (archived : List Nat) : Compacting where
  store := .start archived

/-- The events of a summary that compact returns. -/
def counted (c : Compacting) : Incident → List Event
  | .request (.compact slug now nowText) =>
    match (c.store.compact policy slug now nowText).result with
    | .ok (some _) => c.store.old policy now
    | _ => []
  | _ => []

/-- The numbers that have a new event. -/
def written (c : Compacting) : Incident → List Nat
  | .request (.call call) => numbers (call.outcome policy c.store).writes
  | .request (.compact slug now nowText) => numbers (c.store.compact policy slug now nowText).writes
  | _ => []

def step (c : Compacting) (i : Incident) : Compacting where
  store := c.store.step policy i
  summarised := (c.summarised ++ (c.counted policy i).map Event.sequence).filter fun n =>
    n ∉ c.written policy i
  left := (c.left ++ ((c.counted policy i).filter fun e => ¬ EventStore.IsDetail e).map
    Event.sequence).filter fun n => n ∉ c.written policy i

/-- A compaction leaves no more events than there were, counts no event again, and the next one
finds nothing to do. -/
structure Converging (c : Compacting) (slug : String) (now : Int) (nowText : String) : Prop where
  shrinks : (c.store.after (c.store.compact policy slug now nowText)).eventCount ≤
    c.store.eventCount
  once : ∀ e ∈ c.counted policy (.request (.compact slug now nowText)), e.sequence ∉ c.summarised
  settles : ∀ slug' nowText', (c.store.after (c.store.compact policy slug now nowText)).compact
      policy slug' now nowText' =
    ⟨[], (c.store.compact policy slug now nowText).lastSequence,
      (c.store.compact policy slug now nowText).index, .ok none⟩

def Converges (c : Compacting) : Incident → Prop
  | .request (.compact slug now nowText) => c.Converging policy slug now nowText
  | _ => True

/-- Every event can be compared, and either there are too few old ones, or some of them are details
or the next number is taken, fewer than ten are left where they are, and none was left by a
compaction before. -/
def Compacts (c : Compacting) : Incident → Prop
  | .request (.compact _ now _) =>
      (∀ n ∈ c.store.index, EventStore.Comparable policy c.store.dir n) ∧
        ((c.store.old policy now).length < 10 ∨
          ((∃ e ∈ c.store.old policy now, EventStore.IsDetail e) ∨
            c.store.lastSequence + 1 ∈ c.store.index) ∧
          (c.store.rest policy now).length < 10 ∧
          ∀ e ∈ c.store.old policy now, e.sequence ∉ c.left)
  | _ => True

instance (c : Compacting) : DecidablePred (c.Compacts policy)
  | .request (.compact _ now _) =>
      inferInstanceAs (Decidable ((∀ n ∈ c.store.index, EventStore.Comparable policy c.store.dir n) ∧
        ((c.store.old policy now).length < 10 ∨
          ((∃ e ∈ c.store.old policy now, EventStore.IsDetail e) ∨
            c.store.lastSequence + 1 ∈ c.store.index) ∧
          (c.store.rest policy now).length < 10 ∧
          ∀ e ∈ c.store.old policy now, e.sequence ∉ c.left)))
  | .request (.call _) => .isTrue trivial
  | .request .reopen => .isTrue trivial
  | .damage _ => .isTrue trivial
  | .vanish _ => .isTrue trivial
  | .loseIndex => .isTrue trivial

/-- The texts that compact takes for the time are of the time it is called or later. -/
def Timely : Incident → Prop
  | .request (.compact _ now nowText) => EventStore.TimeText policy now nowText
  | _ => True

/-- What is counted and still there was left by a compaction. -/
structure Tracked (c : Compacting) : Prop where
  left : ∀ n ∈ c.left, n ∈ c.summarised
  counted : ∀ n ∈ c.summarised, ∀ e, c.store.dir.files.lookup n = some (.holds e) → n ∈ c.left

variable {policy} {c : Compacting}

/-- A file that is not written anew holds an event only if it did before. -/
theorem lookup_step {i : Incident} {n : Nat} (hn : n ∉ c.written policy i) {e : Event}
    (h : (c.store.step policy i).dir.files.lookup n = some (.holds e)) :
    c.store.dir.files.lookup n = some (.holds e) := by
  cases i with
  | request r =>
      cases r with
      | call call => exact EventDir.lookup_of_performAll hn h
      | compact slug now nowText => exact EventDir.lookup_of_performAll hn h
      | reopen =>
          refine @EventDir.lookup_of_performAll _ c.store.dir.loadIndex.2 n ?_ _ h
          rw [EventDir.loadIndex]
          split <;> exact List.not_mem_nil
  | damage m =>
      rw [EventStore.step, EventDir.lookup_event] at h
      split at h
      case isTrue => cases h
      case isFalse => exact h
  | vanish m =>
      have hunlink : n ∉ numbers [.unlink m] := List.not_mem_nil
      exact EventDir.lookup_of_performAll hunlink h
  | loseIndex => exact h

theorem counted_raises (h : ¬ ∀ n ∈ c.store.index, EventStore.Comparable policy c.store.dir n)
    (slug : String) (now : Int) (nowText : String) :
    c.counted policy (.request (.compact slug now nowText)) = [] := by
  obtain ⟨err, herr⟩ := EventStore.compact_raises h slug now nowText
  rw [Compacting.counted, herr]

theorem counted_few (h : ∀ n ∈ c.store.index, EventStore.Comparable policy c.store.dir n)
    {now : Int} (hfew : (c.store.old policy now).length < 10) (slug nowText : String) :
    c.counted policy (.request (.compact slug now nowText)) = [] := by
  rw [Compacting.counted, EventStore.compact_few h hfew]

theorem counted_many (hs : c.store.Sound)
    (h : ∀ n ∈ c.store.index, EventStore.Comparable policy c.store.dir n) {now : Int}
    (hmany : 10 ≤ (c.store.old policy now).length) (slug nowText : String) :
    c.counted policy (.request (.compact slug now nowText)) = c.store.old policy now := by
  rw [Compacting.counted, hs.compact_many h hmany]

/-- Only a compaction that goes through counts events. -/
theorem of_mem_counted {i : Incident} {e : Event} (he : e ∈ c.counted policy i) :
    ∃ slug now nowText, i = .request (.compact slug now nowText) ∧
      (∀ n ∈ c.store.index, EventStore.Comparable policy c.store.dir n) ∧
      10 ≤ (c.store.old policy now).length := by
  have hnone : e ∉ ([] : List Event) := List.not_mem_nil
  cases i with
  | request r =>
      cases r with
      | compact slug now nowText =>
          refine ⟨slug, now, nowText, rfl, ?_⟩
          by_contra hnot
          by_cases h : ∀ n ∈ c.store.index, EventStore.Comparable policy c.store.dir n
          · have hfew := not_le.mp fun hmany => hnot ⟨h, hmany⟩
            exact hnone (counted_few h hfew slug nowText ▸ he)
          · exact hnone (counted_raises h slug now nowText ▸ he)
      | call call => exact absurd he hnone
      | reopen => exact absurd he hnone
  | damage m => exact absurd he hnone
  | vanish m => exact absurd he hnone
  | loseIndex => exact absurd he hnone

theorem Tracked.step (ht : c.Tracked) (hs : c.store.Sound) (i : Incident) :
    (c.step policy i).Tracked := by
  constructor
  · intro n hn
    obtain ⟨hn, hwritten⟩ := List.mem_filter.mp hn
    refine List.mem_filter.mpr ⟨?_, hwritten⟩
    obtain hn | hn := List.mem_append.mp hn
    · exact List.mem_append_left _ (ht.left n hn)
    · exact List.mem_append_right _ ((List.filter_sublist.map _).subset hn)
  · intro n hn e hfile
    obtain ⟨hn, hwritten⟩ := List.mem_filter.mp hn
    refine List.mem_filter.mpr ⟨?_, hwritten⟩
    have hwritten : n ∉ c.written policy i := of_decide_eq_true hwritten
    obtain hn | hn := List.mem_append.mp hn
    · exact List.mem_append_left _ (ht.counted n hn e (lookup_step hwritten hfile))
    · obtain ⟨e', he', hseq⟩ := List.mem_map.mp hn
      obtain ⟨slug, now, nowText, rfl, hcomparable, hmany⟩ := of_mem_counted he'
      refine List.mem_append_right _ (List.mem_map.mpr ⟨e', List.mem_filter.mpr ⟨he', ?_⟩, hseq⟩)
      refine decide_eq_true fun hdetail => ?_
      rw [counted_many hs hcomparable hmany] at he'
      have hgone : n ∈ c.store.details policy now := hseq ▸ (hs.mem_details he').mpr hdetail
      have hlast : n ≠ c.store.lastSequence + 1 := by
        intro hlast
        refine hwritten ?_
        rw [written, hs.compact_many hcomparable hmany, numbers_append, numbers_append,
          numbers_unlinks, hlast]
        exact List.mem_cons_self
      have hnone := hs.lookup_many hcomparable hmany slug nowText n
      rw [if_neg hlast, if_pos hgone] at hnone
      cases hnone.symm.trans hfile

theorem once_many (ht : c.Tracked) (hs : c.store.Sound) (now : Int) :
    (∀ e ∈ c.store.old policy now, e.sequence ∉ c.summarised) ↔
      ∀ e ∈ c.store.old policy now, e.sequence ∉ c.left := by
  refine forall₂_congr fun e he => not_congr ⟨fun hmem => ?_, ht.left _⟩
  exact ht.counted _ hmem e (hs.mem_old he).2

/-- One compaction converges exactly if it is one that compacts. -/
theorem converges_iff (ht : c.Tracked) (hs : c.store.Sound) {i : Incident} (hi : Timely policy i) :
    c.Converges policy i ↔ c.Compacts policy i := by
  cases i with
  | request r =>
      cases r with
      | compact slug now nowText =>
          by_cases h : ∀ n ∈ c.store.index, EventStore.Comparable policy c.store.dir n
          · by_cases hfew : (c.store.old policy now).length < 10
            · have hsame (slug nowText : String) := EventStore.compact_few h hfew slug nowText
              refine iff_of_true ⟨?_, ?_, ?_⟩ ⟨h, .inl hfew⟩
              · rw [hsame]
                exact le_rfl
              · rw [counted_few h hfew]
                exact fun e he => absurd he List.not_mem_nil
              · intro slug' nowText'
                rw [hsame]
                exact hsame slug' nowText'
            · have hmany := not_lt.mp hfew
              have hold := EventStore.old_many hs h hmany slug hi
              have hcomparable := EventStore.comparable_many hs h hmany slug hi
              have hcount := @EventStore.eventCount_many policy c.store hs h now hmany slug nowText
              constructor
              · intro hc
                refine ⟨h, .inr ⟨hcount.mp hc.shrinks, ?_, ?_⟩⟩
                · by_contra hlong
                  have hagain := ((hs.request (.compact slug now nowText)).compact_many hcomparable
                    (by rw [EventStore.request, hold]; exact not_lt.mp hlong) slug nowText)
                  have hsettles := hc.settles slug nowText
                  cases (congrArg Outcome.result hsettles).symm.trans
                    (congrArg Outcome.result hagain)
                · rw [← once_many ht hs, ← counted_many hs h hmany slug nowText]
                  exact hc.once
              · rintro ⟨-, hbad | ⟨hsome, hrest, honce⟩⟩
                · exact absurd hbad hfew
                · refine ⟨hcount.mpr hsome, ?_, fun slug' nowText' => ?_⟩
                  · rw [counted_many hs h hmany]
                    exact (once_many ht hs now).mpr honce
                  · exact EventStore.compact_few hcomparable (hold ▸ hrest) slug' nowText'
          · have hraises (slug nowText : String) := EventStore.compact_raises h slug now nowText
            refine iff_of_false (fun hc => ?_) fun hc => h hc.1
            obtain ⟨err, herr⟩ := hraises slug nowText
            have hsettles := hc.settles slug nowText
            rw [herr] at hsettles
            cases herr.symm.trans hsettles
      | call call => exact Iff.rfl
      | reopen => exact Iff.rfl
  | damage m => exact Iff.rfl
  | vanish m => exact Iff.rfl
  | loseIndex => exact Iff.rfl

theorem tracked_start (archived : List Nat) : (start archived).Tracked :=
  ⟨fun _ hn => absurd hn List.not_mem_nil, fun _ hn => absurd hn List.not_mem_nil⟩

/-- The texts of two days are times: the first one and one a year later. -/
def dayPolicy : EventRetentionPolicy where
  fromisoformat text :=
    if text = "1970-01-01" then some (.naive 0)
    else if text = "1971-01-01" then some (.naive (EventRetentionPolicy.days 365))
    else none
  retention := EventRetentionPolicy.defaultRetention

def dayDraft (eventType : EventType) : Draft where
  event := { runSlug := "demo", timestamp := "1970-01-01", eventType := eventType.value }

/-- Ten events of a type, and a compaction a year later. -/
def yearLater (eventType : EventType) : List Incident :=
  [.request (.call (.appendMany (List.replicate 10 (dayDraft eventType)))),
    .request (.compact "demo" (EventRetentionPolicy.days 365) "1971-01-01")]

theorem timely_yearLater (eventType : EventType) :
    ∀ i ∈ yearLater eventType, Timely dayPolicy i := by
  intro i hi
  rw [yearLater, List.mem_cons, List.mem_singleton] at hi
  obtain rfl | rfl := hi
  · trivial
  · exact ⟨EventRetentionPolicy.days 365, by decide +kernel, le_rfl⟩

end Compacting

end Prodinamik.Events
