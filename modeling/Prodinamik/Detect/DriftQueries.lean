import Prodinamik.Detect.DriftCollector
import Prodinamik.Lib.Run

namespace Prodinamik.Detect.DriftPatternCollector

open Lib Skills

/-- What the filters of a query ask of an event. -/
def Wanted (driftType : Option DriftType) (runId : Option String) (since : Option Int)
    (e : DriftEvent) : Prop :=
  (∀ t ∈ driftType, e.driftType = t) ∧ (∀ r ∈ runId, r ≠ "" → e.runId = r) ∧
    ∀ s ∈ since, s ≤ e.timestamp

instance (driftType : Option DriftType) (runId : Option String) (since : Option Int) :
    DecidablePred (Wanted driftType runId since) := fun e =>
  inferInstanceAs (Decidable ((∀ t ∈ driftType, e.driftType = t) ∧
    (∀ r ∈ runId, r ≠ "" → e.runId = r) ∧ ∀ s ∈ since, s ≤ e.timestamp))

/-- Every query answers as a scan of the retained events would. -/
structure Scanned (c : DriftPatternCollector) : Prop where
  getEvents : ∀ driftType runId since limit, c.getEvents driftType runId since limit =
    PyList.sliceFrom (c.events.filter (Wanted driftType runId since)) (-limit)
  typesOnce : ∀ since, ((c.countByType since).map Prod.fst).Nodup
  countByType : ∀ since p, p ∈ c.countByType since ↔ 0 < p.2 ∧ ∃ t : DriftType,
    p = (t.value, c.events.countP (Wanted (some t) none since))
  countByRun : ∀ runId, c.countByRun runId = c.events.countP fun e => e.runId = runId

/-- The types that are named are those of the retained events. -/
def TypesAgree (c : DriftPatternCollector) : Prop :=
  c.uniqueTypes.Nodup ∧ ∀ t, t ∈ c.uniqueTypes ↔ ∃ e ∈ c.events, e.driftType = t

theorem getEvents_eq {c : DriftPatternCollector} (h : c.Indexed) (driftType : Option DriftType)
    (runId : Option String) (since : Option Int) (limit : Int) :
    c.getEvents driftType runId since limit =
      PyList.sliceFrom (c.events.filter (Wanted driftType runId since)) (-limit) := by
  have htype : ∀ t, c.indexByType.entry t = c.events.filter fun e => e.driftType = t := h.byType
  refine congrArg (fun events => PyList.sliceFrom events (-limit)) ?_
  cases runId with
  | none =>
      cases driftType <;> cases since <;> simp [Wanted, htype, List.filter_filter, Bool.and_comm]
  | some r =>
      by_cases hr : r = ""
      · cases driftType <;> cases since <;>
          simp [Wanted, htype, hr, List.filter_filter, Bool.and_comm]
      · cases driftType <;> cases since <;>
          simp [Wanted, htype, hr, List.filter_filter, Bool.and_comm, Bool.and_assoc,
            Bool.and_left_comm]

theorem countByType_eq (c : DriftPatternCollector) (since : Option Int) :
    c.countByType since = (Grouping.groupBy (fun e => e.driftType.value)
      (c.events.filter (Wanted none none since))).map fun g => (g.1, g.2.length) := by
  cases since with
  | none => simp [countByType, Wanted]
  | some s => simp [countByType, Wanted]

theorem length_group (events : List DriftEvent) (t : DriftType) (since : Option Int) :
    ((events.filter (Wanted none none since)).filter fun e => e.driftType.value = t.value).length =
      events.countP (Wanted (some t) none since) := by
  rw [List.countP_eq_length_filter, List.filter_filter]
  congr 1
  refine List.filter_congr fun e _ => ?_
  simp [Wanted, DriftType.value_injective.eq_iff]

theorem mem_countByType {c : DriftPatternCollector} {since : Option Int} {p : String × Nat} :
    p ∈ c.countByType since ↔ 0 < p.2 ∧ ∃ t : DriftType,
      p = (t.value, c.events.countP (Wanted (some t) none since)) := by
  rw [countByType_eq, List.mem_map]
  constructor
  · rintro ⟨⟨value, group⟩, hg, rfl⟩
    obtain ⟨⟨e, he, rfl⟩, hgroup⟩ := Grouping.mem_groupBy.mp hg
    have hmem : e ∈ group := by
      rw [show group = _ from hgroup]
      exact List.mem_filter.mpr ⟨he, decide_eq_true rfl⟩
    have hlength := (congrArg List.length hgroup).trans (length_group c.events e.driftType since)
    exact ⟨List.length_pos_of_mem hmem, e.driftType, Prod.ext rfl hlength⟩
  · rintro ⟨hpos, t, rfl⟩
    obtain ⟨e, he, hwanted⟩ := List.countP_pos_iff.mp hpos
    obtain ⟨htype, -, hsince⟩ := of_decide_eq_true hwanted
    refine ⟨(t.value, _), Grouping.mem_groupBy.mpr ⟨⟨e, ?_, ?_⟩, rfl⟩, Prod.ext rfl (length_group ..)⟩
    · exact List.mem_filter.mpr ⟨he, decide_eq_true ⟨by simp, by simp, hsince⟩⟩
    · rw [htype t rfl]

theorem Indexed.scanned {c : DriftPatternCollector} (h : c.Indexed) : c.Scanned where
  getEvents := getEvents_eq h
  typesOnce since := by
    rw [countByType_eq, List.map_map]
    have hkeys : ∀ l : List DriftEvent, (Grouping.groupBy (fun e => e.driftType.value) l).map
        (Prod.fst ∘ fun g => (g.1, g.2.length)) = Grouping.firsts (l.map fun e => e.driftType.value) := by
      intro l
      rw [Grouping.groupBy, List.map_map]
      exact List.map_id _
    rw [hkeys]
    exact Grouping.nodup_firsts _
  countByType since p := mem_countByType
  countByRun runId := by
    rw [countByRun, h.byRun, List.countP_eq_length_filter]

theorem mem_uniqueTypes_record {c : DriftPatternCollector} {event : DriftEvent} {t : DriftType} :
    t ∈ (c.record event).uniqueTypes ↔ t = event.driftType ∨ t ∈ c.uniqueTypes := by
  rw [record]
  split
  · cases hevents : c.events ++ [event] with
    | nil => exact absurd hevents (by simp)
    | cons evicted rest =>
        exact ListIndex.mem_keys_popFirst.trans ListIndex.mem_keys_push
  · exact ListIndex.mem_keys_push

inductive Op
  | record (event : DriftEvent)
  | clear

/-- A call that evicts an event keeps another one of its type, be it the new one. -/
def Keeps (c : DriftPatternCollector) : Op → Prop
  | .record event => c.maxHistory ≤ c.events.length → ∀ evicted rest,
      c.events ++ [event] = evicted :: rest → ∃ e ∈ rest, e.driftType = evicted.driftType
  | .clear => True

theorem typesAgree_record_iff {c : DriftPatternCollector} (h : c.TypesAgree) (event : DriftEvent) :
    (c.record event).TypesAgree ↔ c.Keeps (.record event) := by
  have hmem (t : DriftType) : t ∈ (c.record event).uniqueTypes ↔
      ∃ e ∈ c.events ++ [event], e.driftType = t := by
    rw [mem_uniqueTypes_record, h.2]
    simp only [List.mem_append, List.mem_singleton, or_and_right, exists_or, exists_eq_left]
    rw [or_comm, eq_comm]
  have hiff : (c.record event).TypesAgree ↔ ∀ t, (∃ e ∈ c.events ++ [event], e.driftType = t) ↔
      ∃ e ∈ (c.record event).events, e.driftType = t := by
    simp only [TypesAgree, hmem]
    exact and_iff_right (c.record event).indexByType.nodup
  rw [hiff]
  obtain hlt | hle := lt_or_ge c.events.length c.maxHistory
  · rw [record_of_le hlt]
    exact iff_of_true (fun t => Iff.rfl) fun hfull => absurd hfull (by omega)
  · rw [record_of_full hle]
    cases hevents : c.events ++ [event] with
    | nil => exact absurd hevents (by simp)
    | cons evicted rest =>
        rw [List.tail_cons]
        constructor
        · intro hall _ evicted' rest' heq
          rw [hevents] at heq
          cases heq
          exact (hall evicted.driftType).mp ⟨evicted, List.mem_cons_self, rfl⟩
        · intro hkeeps t
          constructor
          · rintro ⟨e, he, rfl⟩
            obtain rfl | he := List.mem_cons.mp he
            · exact hkeeps hle e rest hevents
            · exact ⟨e, he, rfl⟩
          · rintro ⟨e, he, htype⟩
            exact ⟨e, List.mem_cons_of_mem _ he, htype⟩

/-- A collector with what was recorded since it was cleared last. -/
structure History where
  collector : DriftPatternCollector
  recorded : List DriftEvent := []

namespace History

def start (maxHistory : Nat) : History := ⟨{ maxHistory := maxHistory }, []⟩

def step (h : History) : Op → History
  | .record event => ⟨h.collector.record event, h.recorded ++ [event]⟩
  | .clear => ⟨h.collector.clear, []⟩

structure Kept (h : History) : Prop where
  latest : h.collector.Latest h.recorded
  indexed : h.collector.Indexed

/-- What is retained are the latest events, and the indices and all queries agree with them. -/
structure Agrees (h : History) : Prop extends Kept h where
  scanned : h.collector.Scanned
  types : h.collector.TypesAgree

theorem kept_cleared (c : DriftPatternCollector) (hevents : c.events = [])
    (htype : c.indexByType = .empty) (hrun : c.indexByRun = .empty) : Kept ⟨c, []⟩ where
  latest := by rw [DriftPatternCollector.Latest, hevents, List.drop_nil]
  indexed := ⟨fun t => by rw [hevents, htype]; rfl, fun r => by rw [hevents, hrun]; rfl⟩

theorem Kept.step {h : History} (hkept : h.Kept) (op : Op) : (h.step op).Kept := by
  cases op with
  | record event => exact ⟨latest_record hkept.latest event, indexed_record hkept.indexed event⟩
  | clear => exact kept_cleared h.collector.clear rfl rfl rfl

theorem typesAgree_nil (c : DriftPatternCollector) (hevents : c.events = [])
    (htype : c.indexByType = .empty) : c.TypesAgree := by
  rw [TypesAgree, uniqueTypes, hevents, htype]
  exact ⟨List.nodup_nil, by simp [ListIndex.keys, Table.empty]⟩

theorem agrees_step_iff {h : History} (hagrees : h.Agrees) (op : Op) :
    (h.step op).Agrees ↔ h.collector.Keeps op := by
  have hkept := hagrees.toKept.step op
  have hiff : (h.step op).Agrees ↔ (h.step op).collector.TypesAgree :=
    ⟨Agrees.types, fun htypes => ⟨hkept, hkept.indexed.scanned, htypes⟩⟩
  rw [hiff]
  cases op with
  | record event => exact typesAgree_record_iff hagrees.types event
  | clear => exact iff_of_true (typesAgree_nil _ rfl rfl) trivial

/-- Nothing but the types that are named can come to differ from the retained events. -/
theorem scanned_always (maxHistory : Nat) (ops : List Op) :
    Run.Always step (fun h => h.Kept ∧ h.collector.Scanned) (start maxHistory) ops := by
  have hkept : (start maxHistory).Kept := kept_cleared _ rfl rfl rfl
  refine Run.always_of_step (fun h op hh => ?_) ⟨hkept, hkept.indexed.scanned⟩ ops
  have hnext := hh.1.step op
  exact ⟨hnext, hnext.indexed.scanned⟩

/-- The collector agrees with the retained events in every state of a run exactly as
long as no call evicts the last event of a type. -/
theorem agrees_always_iff (maxHistory : Nat) (ops : List Op) :
    Run.Always step Agrees (start maxHistory) ops ↔
      Run.Steps step (fun h op => h.collector.Keeps op) (start maxHistory) ops := by
  have hkept : (start maxHistory).Kept := kept_cleared _ rfl rfl rfl
  refine Run.along_iff_steps (fun _ => True) (fun _ _ _ => trivial) (fun h op _ hagrees => ?_)
    trivial ⟨hkept, hkept.indexed.scanned, typesAgree_nil _ rfl rfl⟩ ops
  rw [and_true]
  exact agrees_step_iff hagrees op

def drift (driftType : DriftType) (object : Nat) : DriftEvent :=
  ⟨"drift-1", driftType, .low, "run-1", "review", 0, "", object⟩

/-- One event is retained and its type is new: the type of the one before it is still named. -/
theorem not_agrees_always : ¬ ∀ maxHistory, 1 ≤ maxHistory → ∀ ops,
    Run.Always step Agrees (start maxHistory) ops := by
  intro h
  have hlast := (h 1 le_rfl [.record (drift .format 0), .record (drift .content 1)]).last
  obtain ⟨e, he, htype⟩ := (hlast.types.2 .format).mp (by decide)
  have hall : ∀ e ∈ ([Op.record (drift .format 0), .record (drift .content 1)].foldl step
      (start 1)).collector.events, e.driftType ≠ .format := by decide
  exact hall e he htype

end History

end Prodinamik.Detect.DriftPatternCollector
