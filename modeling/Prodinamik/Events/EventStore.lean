import Mathlib.Data.List.AList
import Mathlib.Data.List.Sort
import Prodinamik.Events.Event
import Prodinamik.Lib.PyList

namespace Prodinamik.Events

/-- A file of the events directory; what is not the JSON of an event is unreadable. -/
inductive EventFile
  | unreadable
  | holds (e : Event)
  deriving DecidableEq, Repr

/-- index.json; what is not JSON is damaged. -/
inductive IndexFile
  | damaged
  | holds (entries : List Nat)
  deriving DecidableEq, Repr

/-- An event file and the file name in the index are told by the sequence number. -/
structure EventDir where
  files : AList (fun _ : Nat => EventFile) := ∅
  index : Option IndexFile := none
  archived : List Nat := []

inductive Write
  | event (sequence : Nat) (file : EventFile)
  | index (entries : List Nat)
  | unlink (sequence : Nat)
  deriving DecidableEq, Repr

namespace EventDir

def perform (d : EventDir) : Write → EventDir
  | .event sequence file => { d with files := d.files.insert sequence file }
  | .index entries => { d with index := some (.holds entries) }
  | .unlink sequence => { d with files := d.files.erase sequence }

def performAll (d : EventDir) (writes : List Write) : EventDir := writes.foldl perform d

theorem lookup_event (d : EventDir) (m : Nat) (file : EventFile) (n : Nat) :
    (d.perform (.event m file)).files.lookup n = if n = m then some file else d.files.lookup n := by
  split
  case isTrue hn => rw [hn, perform, AList.lookup_insert]
  case isFalse hn => rw [perform, AList.lookup_insert_ne hn]

theorem lookup_unlink (d : EventDir) (m n : Nat) :
    (d.perform (.unlink m)).files.lookup n = if n = m then none else d.files.lookup n := by
  split
  case isTrue hn => rw [hn, perform, AList.lookup_erase]
  case isFalse hn => rw [perform, AList.lookup_erase_ne hn]

theorem lookup_unlinks (d : EventDir) (sequences : List Nat) (n : Nat) :
    (d.performAll (sequences.map .unlink)).files.lookup n =
      if n ∈ sequences then none else d.files.lookup n := by
  induction sequences generalizing d with
  | nil => exact (if_neg List.not_mem_nil).symm
  | cons m rest ih =>
      rw [List.map_cons, performAll, List.foldl_cons, ← performAll, ih, lookup_unlink]
      by_cases hn : n = m
      · rw [if_pos hn, ite_self, if_pos (List.mem_cons.mpr (.inl hn))]
      · simp only [List.mem_cons, or_iff_right hn, if_neg hn]

def glob (sequences : List Nat) : List Nat := sequences.filter fun n => n < 10 ^ 10

def loadLastSequence (d : EventDir) : Nat := (glob (d.files.keys ++ d.archived)).foldl max 0

theorem le_loadLastSequence {d : EventDir} {n : Nat} (hn : n ∈ d.files.keys ++ d.archived)
    (hten : n < 10 ^ 10) : n ≤ d.loadLastSequence := by
  have hmem : n ∈ glob (d.files.keys ++ d.archived) := by
    rw [glob, List.mem_filter]
    exact ⟨hn, decide_eq_true hten⟩
  rw [loadLastSequence]
  exact Lib.PyList.le_foldl_max (List.mem_cons_of_mem _ hmem)

/-- The index and what is written to load it. -/
def loadIndex (d : EventDir) : List Nat × List Write :=
  match d.index with
  | some (.holds entries) => (entries, [])
  | _ =>
      let index := (glob d.files.keys).insertionSort (· ≤ ·)
      (index, [.index index])

/-- _parse_event of a file that exists. -/
def parseEvent : EventFile → Option Event
  | .unreadable => none
  | .holds e => some e

end EventDir

/-- An event that is given to the store; json.dumps may raise on its data. -/
structure Draft where
  event : Event
  serializable : Bool := true
  deriving DecidableEq, Repr

/-- The index is a dict from the sequence numbers to the file names. -/
structure EventStore where
  dir : EventDir
  lastSequence : Nat
  index : List Nat

/-- The writes of a call in their order, what the store has in memory after it
and what the call returns. -/
structure Outcome (α : Type) where
  writes : List Write
  lastSequence : Nat
  index : List Nat
  result : Except String α

def Outcome.noResult {α : Type} (o : Outcome α) : Outcome Unit :=
  ⟨o.writes, o.lastSequence, o.index, o.result.map fun _ => ()⟩

namespace EventStore

def init (dir : EventDir) : EventStore where
  dir := dir.performAll dir.loadIndex.2
  lastSequence := dir.loadLastSequence
  index := dir.loadIndex.1

def after {α : Type} (s : EventStore) (o : Outcome α) : EventStore where
  dir := s.dir.performAll o.writes
  lastSequence := o.lastSequence
  index := o.index

/-- self._index[seq] = filename -/
def addKey (index : List Nat) (sequence : Nat) : List Nat :=
  if sequence ∈ index then index else index ++ [sequence]

def notSerializable : String := "keys must be str, int, float, bool or None"

def append (s : EventStore) (d : Draft) : Outcome Nat :=
  let seq := s.lastSequence + 1
  if d.serializable then
    { writes := [.event seq (.holds { d.event with sequence := seq }), .index (addKey s.index seq)]
      lastSequence := seq
      index := addKey s.index seq
      result := .ok seq }
  else ⟨[], s.lastSequence, s.index, .error notSerializable⟩

/-- The loop of append_many: the writes, the index and the numbers, up to the
first event that cannot be serialized. -/
def appendLoop : List Draft → Nat → List Nat → List Write × List Nat × Except String (List Nat)
  | [], _, index => ([], index, .ok [])
  | d :: ds, seq, index =>
      if d.serializable then
        let rest := appendLoop ds (seq + 1) (addKey index seq)
        (.event seq (.holds { d.event with sequence := seq }) :: rest.1, rest.2.1,
          rest.2.2.map fun seqs => seq :: seqs)
      else ([], index, .error notSerializable)

def appendMany (s : EventStore) (events : List Draft) : Outcome (List Nat) :=
  if events = [] then ⟨[], s.lastSequence, s.index, .ok []⟩
  else
    let loop := appendLoop events (s.lastSequence + 1) s.index
    match loop.2.2 with
    | .error e => ⟨loop.1, s.lastSequence, loop.2.1, .error e⟩
    | .ok seqs =>
        { writes := loop.1 ++ [.index loop.2.1]
          lastSequence := seqs.getLast?.getD s.lastSequence
          index := loop.2.1
          result := .ok seqs }

theorem mem_addKey {index : List Nat} {n seq : Nat} :
    n ∈ addKey index seq ↔ n = seq ∨ n ∈ index := by
  rw [addKey]
  split
  case isTrue h =>
    refine ⟨.inr, ?_⟩
    rintro (rfl | hn)
    · exact h
    · exact hn
  case isFalse =>
    rw [List.mem_append, List.mem_singleton, or_comm]

theorem appendLoop_ok {ds : List Draft} (hds : ∀ d ∈ ds, d.serializable) (seq : Nat)
    (index : List Nat) : (appendLoop ds seq index).2.2 = .ok (List.range' seq ds.length) := by
  induction ds generalizing seq index with
  | nil => rfl
  | cons d ds ih =>
      rw [appendLoop, if_pos (hds d List.mem_cons_self)]
      simp only [ih fun d hd => hds d (List.mem_cons_of_mem _ hd)]
      rfl

theorem appendMany_ok (s : EventStore) {ds : List Draft} (hne : ds ≠ [])
    (hds : ∀ d ∈ ds, d.serializable) :
    s.appendMany ds =
      { writes := (appendLoop ds (s.lastSequence + 1) s.index).1 ++
          [.index (appendLoop ds (s.lastSequence + 1) s.index).2.1]
        lastSequence := s.lastSequence + ds.length
        index := (appendLoop ds (s.lastSequence + 1) s.index).2.1
        result := .ok (List.range' (s.lastSequence + 1) ds.length) } := by
  have hlast : (List.range' (s.lastSequence + 1) ds.length).getLast?.getD s.lastSequence =
      s.lastSequence + ds.length := by
    have hpos := List.length_pos_of_ne_nil hne
    rw [List.getLast?_range', if_neg hpos.ne', Option.getD_some]
    omega
  rw [appendMany, if_neg hne]
  simp only [appendLoop_ok hds, hlast]

/-- An event that is appended alone is a batch of one. -/
theorem append_noResult (s : EventStore) (d : Draft) :
    (s.append d).noResult = (s.appendMany [d]).noResult := by
  rw [append, appendMany, if_neg (List.cons_ne_nil _ _), appendLoop]
  cases d.serializable with
  | true => rfl
  | false => rfl

theorem appendMany_failed (s : EventStore) {ds : List Draft}
    (h : ∀ d ∈ ds.head?, d.serializable = false) : (s.appendMany ds).writes = [] ∧
      (s.appendMany ds).lastSequence = s.lastSequence ∧ (s.appendMany ds).index = s.index := by
  cases ds with
  | nil => exact ⟨rfl, rfl, rfl⟩
  | cons d ds =>
      rw [appendMany, if_neg (List.cons_ne_nil _ _), appendLoop, h d rfl]
      exact ⟨rfl, rfl, rfl⟩

def get (s : EventStore) (sequence : Nat) : Option Event :=
  if sequence ∈ s.index then (s.dir.files.lookup sequence).bind EventDir.parseEvent else none

def read (s : EventStore) (sequences : List Nat) : List Event := sequences.filterMap s.get

def getRange (s : EventStore) (start limit : Nat) : List Event :=
  (s.read (List.range' start (s.lastSequence + 1 - start))).take limit

def getAll (s : EventStore) : List Event := s.getRange 1 (s.lastSequence + 1)

structure Query where
  eventType : String := ""
  validator : String := ""
  passed : Option Bool := none
  minCost : Rat := 0
  since : String := ""
  limit : Nat := 100
  deriving DecidableEq, Repr

/-- A criterion that is empty or zero is not applied. -/
def Query.accepts (q : Query) (e : Event) : Bool :=
  (q.eventType = "" ∨ e.eventType = q.eventType) ∧
    (q.validator = "" ∨ e.data.validator = some q.validator) ∧
    (∀ value ∈ q.passed, e.data.passedIs value) ∧
    (q.minCost = 0 ∨ q.minCost ≤ e.costUsd) ∧ (q.since = "" ∨ q.since ≤ e.timestamp)

def query (s : EventStore) (q : Query) : List Event :=
  ((s.read (List.range' 1 s.lastSequence).reverse).filter q.accepts).take q.limit

/-- costs[vname] = costs.get(vname, 0.0) + cost -/
def addCost (costs : List (String × Rat)) (name : String) (cost : Rat) : List (String × Rat) :=
  if name ∈ costs.map Prod.fst then
    costs.map fun c => if c.1 = name then (c.1, c.2 + cost) else c
  else costs ++ [(name, cost)]

def Costlier (a b : String × Rat) : Prop := b.2 ≤ a.2

instance : DecidableRel Costlier := fun a b => inferInstanceAs (Decidable (b.2 ≤ a.2))

def costSummary (s : EventStore) (since : String) : List (String × Rat) :=
  let costed := s.getAll.filter fun e =>
    (e.eventType = EventType.validation.value ∨ e.eventType = EventType.validationDetail.value) ∧
      (since = "" ∨ since ≤ e.timestamp)
  (costed.foldl (fun costs e => addCost costs (e.data.validator.getD "unknown") e.costUsd)
    []).insertionSort Costlier

/-- The loop of purge over the index: the files it removes, the keys it drops
and the exception that ends it. -/
def purgeLoop (policy : EventRetentionPolicy) (dir : EventDir) (now : Int) :
    List Nat → List Nat × List Nat × Except String Unit
  | [] => ([], [], .ok ())
  | seq :: rest =>
    match dir.files.lookup seq with
    | none =>
        let r := purgeLoop policy dir now rest
        (r.1, seq :: r.2.1, r.2.2)
    | some file =>
      match EventDir.parseEvent file with
      | none => ([], [], .error "'NoneType' object has no attribute 'event_type'")
      | some e =>
        match policy.shouldPurge e now with
        | .error err => ([], [], .error err)
        | .ok false => purgeLoop policy dir now rest
        | .ok true =>
            let r := purgeLoop policy dir now rest
            (seq :: r.1, seq :: r.2.1, r.2.2)

def purge (policy : EventRetentionPolicy) (s : EventStore) (now : Int) : Outcome Nat :=
  let loop := purgeLoop policy s.dir now s.index
  match loop.2.2 with
  | .error e => ⟨loop.1.map .unlink, s.lastSequence, s.index, .error e⟩
  | .ok () =>
      let index := s.index.filter fun seq => seq ∉ loop.2.1
      { writes := loop.1.map .unlink ++ (if loop.2.1 = [] then [] else [.index index])
        lastSequence := s.lastSequence
        index := index
        result := .ok loop.1.length }

/-- The loop of compact over the index: the events before the cutoff. -/
def oldEvents (policy : EventRetentionPolicy) (dir : EventDir) (cutoff : Int) :
    List Nat → Except String (List Event)
  | [] => .ok []
  | seq :: rest =>
    match dir.files.lookup seq with
    | none => oldEvents policy dir cutoff rest
    | some file =>
      match EventDir.parseEvent file with
      | none => .error "'NoneType' object has no attribute 'timestamp'"
      | some e =>
        match policy.fromisoformat e.timestamp with
        | none => oldEvents policy dir cutoff rest
        | some .aware => .error "can't compare offset-naive and offset-aware datetimes"
        | some (.naive time) =>
            if time < cutoff then (oldEvents policy dir cutoff rest).map fun es => e :: es
            else oldEvents policy dir cutoff rest

/-- The detailed events are removed one by one, from the directory and the index. -/
def removeDetails (dir : EventDir) :
    List Event → List Nat → List Write × List Nat × Except String Unit
  | [], index => ([], index, .ok ())
  | e :: es, index =>
      let unlink := if (dir.files.lookup e.sequence).isSome then [Write.unlink e.sequence] else []
      if e.sequence ∈ index then
        let rest := removeDetails dir es (index.erase e.sequence)
        (unlink ++ rest.1, rest.2.1, rest.2.2)
      else (unlink, index, .error (toString e.sequence))

def summarize (s : EventStore) (events : List Event) (slug nowText : String) : Event :=
  let timestamps := events.map Event.timestamp
  let first := timestamps.foldl min (timestamps.headD "")
  let passed := events.countP fun e => e.data.passedOrTrue
  let failed := events.countP fun e => !e.data.passedOrTrue
  { runSlug := slug
    timestamp := nowText
    eventType := EventType.weeklySummary.value
    data :=
      { summary := some
          { compactedEvents := events.length
            periodStart := first
            periodEnd := timestamps.foldl max (timestamps.headD "")
            totalCost := events.foldl (fun total e => total + e.costUsd) 0
            passed := passed
            failed := failed
            passRate := passed / max (passed + failed) 1
            topValidators := s.costSummary first } } }

/-- The summary goes through append; the index is then saved once more. -/
def compact (policy : EventRetentionPolicy) (s : EventStore) (slug : String) (now : Int)
    (nowText : String) : Outcome (Option Event) :=
  match oldEvents policy s.dir (now - EventRetentionPolicy.compactionAge) s.index with
  | .error e => ⟨[], s.lastSequence, s.index, .error e⟩
  | .ok old =>
    if old.length < EventRetentionPolicy.compactionBatch then
      ⟨[], s.lastSequence, s.index, .ok none⟩
    else
      let details := old.filter fun e => e.eventType = EventType.validationDetail.value
      let removed := removeDetails s.dir details s.index
      match removed.2.2 with
      | .error e => ⟨removed.1, s.lastSequence, removed.2.1, .error e⟩
      | .ok () =>
          let s' : EventStore := ⟨s.dir.performAll removed.1, s.lastSequence, removed.2.1⟩
          let summary := s'.summarize old slug nowText
          let o := s'.append { event := summary }
          { writes := removed.1 ++ o.writes ++ [.index o.index]
            lastSequence := o.lastSequence
            index := o.index
            result := o.result.map fun seq => some { summary with sequence := seq } }

end EventStore

end Prodinamik.Events
