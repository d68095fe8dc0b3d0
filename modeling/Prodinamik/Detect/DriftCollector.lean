import Mathlib.Data.List.Induction
import Prodinamik.Lib.Grouping
import Prodinamik.Lib.PyList
import Prodinamik.Skills.SkillForge

namespace Prodinamik.Detect

open Lib Skills

inductive DriftSeverity
  | low
  | medium
  | high
  | critical
  deriving DecidableEq, Repr

/-- Two events that are not the same object differ. -/
structure DriftEvent where
  driftId : String
  driftType : DriftType
  severity : DriftSeverity
  runId : String
  state : String
  timestamp : Int
  description : String
  object : Nat := 0
  deriving DecidableEq, Repr

structure DriftPatternCollector where
  maxHistory : Nat := 1000
  events : List DriftEvent := []
  indexByType : ListIndex DriftType DriftEvent := .empty
  indexByRun : ListIndex String DriftEvent := .empty

namespace DriftPatternCollector

def record (c : DriftPatternCollector) (event : DriftEvent) : DriftPatternCollector :=
  let events := c.events ++ [event]
  let byType := c.indexByType.push event.driftType event
  let byRun := c.indexByRun.push event.runId event
  if c.maxHistory < events.length then
    match events with
    | [] => c
    | evicted :: rest =>
        { c with
          events := rest
          indexByType := byType.popFirst evicted.driftType evicted
          indexByRun := byRun.popFirst evicted.runId evicted }
  else { c with
    events := events
    indexByType := byType
    indexByRun := byRun }

def recordAll (c : DriftPatternCollector) (events : List DriftEvent) : DriftPatternCollector :=
  events.foldl record c

def retained (maxHistory : Nat) (events : List DriftEvent) : List DriftEvent :=
  (recordAll { maxHistory := maxHistory } events).events

/-- Of the filters only an empty run id is not looked at. -/
def getEvents (c : DriftPatternCollector) (driftType : Option DriftType) (runId : Option String)
    (since : Option Int) (limit : Int) : List DriftEvent :=
  let events := match driftType with
    | none => c.events
    | some t => c.indexByType.entry t
  let events := match runId with
    | none => events
    | some r => if r = "" then events else events.filter fun e => e.runId = r
  let events := match since with
    | none => events
    | some s => events.filter fun e => s ≤ e.timestamp
  PyList.sliceFrom events (-limit)

/-- A Counter, with its keys in the order in which they come up. -/
def countByType (c : DriftPatternCollector) (since : Option Int) : List (String × Nat) :=
  let events := match since with
    | none => c.events
    | some s => c.events.filter fun e => s ≤ e.timestamp
  (Grouping.groupBy (fun e => e.driftType.value) events).map fun g => (g.1, g.2.length)

def countByRun (c : DriftPatternCollector) (runId : String) : Nat := (c.indexByRun.entry runId).length

def uniqueTypes (c : DriftPatternCollector) : List DriftType := c.indexByType.keys

def clear (c : DriftPatternCollector) : DriftPatternCollector :=
  { c with
    events := []
    indexByType := .empty
    indexByRun := .empty }

/-- The indices hold the events that are there, each under its type and its run. -/
structure Indexed (c : DriftPatternCollector) : Prop where
  byType : ListIndex.Follows DriftEvent.driftType c.indexByType c.events
  byRun : ListIndex.Follows DriftEvent.runId c.indexByRun c.events

theorem record_of_le {c : DriftPatternCollector} {event : DriftEvent}
    (h : c.events.length < c.maxHistory) : (c.record event).events = c.events ++ [event] := by
  have hroom : ¬c.maxHistory < (c.events ++ [event]).length := by
    rw [List.length_append, List.length_singleton]
    omega
  rw [record, if_neg hroom]

theorem record_of_full {c : DriftPatternCollector} {event : DriftEvent}
    (h : c.maxHistory ≤ c.events.length) :
    (c.record event).events = (c.events ++ [event]).tail := by
  have hfull : c.maxHistory < (c.events ++ [event]).length := by
    rw [List.length_append, List.length_singleton]
    omega
  rw [record, if_pos hfull]
  cases hevents : c.events ++ [event] with
  | nil => exact absurd hevents (by simp)
  | cons evicted rest => rfl

theorem maxHistory_record (c : DriftPatternCollector) (event : DriftEvent) :
    (c.record event).maxHistory = c.maxHistory := by
  rw [record]
  split
  · split
    · rfl
    · rfl
  · rfl

theorem indexed_record {c : DriftPatternCollector} (h : Indexed c) (event : DriftEvent) :
    Indexed (c.record event) := by
  have htype := h.byType.push event
  have hrun := h.byRun.push event
  rw [record]
  split
  · cases hevents : c.events ++ [event] with
    | nil => exact h
    | cons evicted rest =>
        rw [hevents] at htype hrun
        exact ⟨htype.popFirst, hrun.popFirst⟩
  · exact ⟨htype, hrun⟩

theorem recordAll_concat (c : DriftPatternCollector) (events : List DriftEvent)
    (event : DriftEvent) : c.recordAll (events ++ [event]) = (c.recordAll events).record event := by
  rw [recordAll, List.foldl_append]
  rfl

theorem maxHistory_recordAll (c : DriftPatternCollector) (events : List DriftEvent) :
    (c.recordAll events).maxHistory = c.maxHistory := by
  induction events using List.reverseRecOn with
  | nil => rfl
  | append_singleton events event ih => rw [recordAll_concat, maxHistory_record, ih]

/-- What is kept is what was recorded last. -/
def Latest (c : DriftPatternCollector) (recorded : List DriftEvent) : Prop :=
  c.events = recorded.drop (recorded.length - c.maxHistory)

theorem latest_record {c : DriftPatternCollector} {recorded : List DriftEvent}
    (h : c.Latest recorded) (event : DriftEvent) :
    (c.record event).Latest (recorded ++ [event]) := by
  rw [Latest] at h
  rw [Latest, maxHistory_record, List.length_append, List.length_singleton]
  by_cases hlt : recorded.length < c.maxHistory
  · have hall : recorded.length - c.maxHistory = 0 := by omega
    have hall' : recorded.length + 1 - c.maxHistory = 0 := by omega
    rw [hall, List.drop_zero] at h
    rw [record_of_le (by rw [h]; exact hlt), h, hall', List.drop_zero]
  · have hfull : c.maxHistory ≤ (recorded.drop (recorded.length - c.maxHistory)).length := by
      rw [List.length_drop]
      omega
    have hone : recorded.length + 1 - c.maxHistory = recorded.length - c.maxHistory + 1 := by omega
    rw [record_of_full (by rw [h]; exact hfull), h, hone,
      ← List.drop_append_of_le_length (Nat.sub_le _ _), ← List.drop_one, List.drop_drop]

theorem retained_eq (maxHistory : Nat) (events : List DriftEvent) :
    retained maxHistory events = events.drop (events.length - maxHistory) := by
  have hlatest : (recordAll { maxHistory := maxHistory } events).Latest events := by
    induction events using List.reverseRecOn with
    | nil => exact List.drop_nil.symm
    | append_singleton events event ih =>
        rw [recordAll_concat]
        exact latest_record ih event
  rw [retained, hlatest, maxHistory_recordAll]

end DriftPatternCollector

end Prodinamik.Detect
