import Mathlib.Algebra.BigOperators.Group.List.Lemmas
import Prodinamik.Audit.AuditLog
import Prodinamik.Lib.Run

namespace Prodinamik.Audit

open Lib Lib.Run Runs

variable {δ : Type}

/-- An AuditLog object with its file handle, which close leaves closed. -/
structure Handle (δ : Type) where
  log : AuditLog δ
  closed : Bool

namespace Handle

inductive Op (δ : Type)
  | record (now : DateTime) (eventType : String) (data : δ) (traceId : Option String)
  | compact (cutoff : String)
  | close
  | reopen (maxSegmentSize : Int)

/-- A record opens the file again, and so does a compaction that rewrites it. -/
def step (a : Handle δ) : Op δ → Handle δ
  | .record now eventType data traceId => ⟨(a.log.record now eventType data traceId).1, false⟩
  | .compact cutoff =>
      ⟨(a.log.compact cutoff).1, a.closed && a.log.dir.active.filter (Line.older cutoff) = []⟩
  | .close => { a with closed := true }
  | .reopen maxSegmentSize => ⟨.init a.log.dir maxSegmentSize, false⟩

def start (maxSegmentSize : Int) : Handle δ := ⟨.init {} maxSegmentSize, false⟩

/-- What _iter_all yields; flush raises on a closed file. -/
def iterAll (a : Handle δ) : Option (List (AuditEntry δ)) :=
  if a.closed then none else some a.log.iterAll

/-- Without a type, and for the empty one, the counter is read. -/
def count (a : Handle δ) (eventType : Option String) : Option Nat :=
  if eventType.getD "" = "" then some a.log.entryCount
  else a.iterAll.map fun es => es.countP fun e => e.eventType = eventType.getD ""

/-- The sum of the counts of the types that occur. -/
def countByType (a : Handle δ) (es : List (AuditEntry δ)) : Option Nat :=
  ((es.map AuditEntry.eventType).dedup.mapM fun t => a.count (some t)).map List.sum

/-- count agrees with the entries that are read back, and with the sum over their types. -/
def Exact (a : Handle δ) : Prop :=
  ∃ es, a.iterAll = some es ∧ a.count none = some es.length ∧ a.countByType es = some es.length

/-- The empty type is the only one or does not occur. -/
def Uniform (types : List String) : Prop := "" ∈ types → ∀ t ∈ types, t = ""

theorem sum_types_iff (types : List String) :
    (types.dedup.map fun t => if t = "" then types.length else types.count t).sum = types.length ↔
      Uniform types := by
  have hsplit : ∀ t, (if t = "" then types.length else types.count t) =
      types.count t + if t = "" then types.length - types.count "" else 0 := by
    intro t
    have hle : types.count "" ≤ types.length := List.count_le_length
    by_cases ht : t = ""
    · rw [if_pos ht, if_pos ht, ht]
      omega
    · rw [if_neg ht, if_neg ht, Nat.add_zero]
  have hextra : (types.dedup.map fun t => if t = "" then types.length - types.count "" else 0).sum =
      types.dedup.count "" * (types.length - types.count "") := by
    induction types.dedup with
    | nil => rw [List.map_nil, List.sum_nil, List.count_nil, Nat.zero_mul]
    | cons t ts ih =>
        rw [List.map_cons, List.sum_cons, ih, List.count_cons, Nat.add_mul]
        by_cases ht : t = ""
        · simp [ht, Nat.add_comm]
        · simp [ht]
  simp only [hsplit]
  rw [List.sum_map_add, List.sum_map_count_dedup_eq_length, hextra, List.count_dedup, Uniform]
  have hall : types.length - types.count "" = 0 ↔ ∀ t ∈ types, t = "" := by
    have hle : types.count "" ≤ types.length := List.count_le_length
    rw [Nat.sub_eq_zero_iff_le, ← le_antisymm_iff.trans (and_iff_right hle), List.count_eq_length]
    exact forall₂_congr fun t _ => eq_comm
  by_cases hmem : "" ∈ types
  · rw [if_pos hmem, Nat.one_mul, ← hall]
    simp only [hmem, true_implies]
    omega
  · rw [if_neg hmem, Nat.zero_mul, Nat.add_zero]
    exact iff_of_true rfl fun h => absurd h hmem

theorem mapM_some {α β : Type} (f : α → β) (as : List α) :
    as.mapM (fun a => some (f a)) = some (as.map f) := by
  induction as with
  | nil => rfl
  | cons a as ih =>
      rw [List.mapM_cons, ih]
      rfl

theorem exact_iff (a : Handle δ) :
    a.Exact ↔ a.closed = false ∧ a.log.entryCount = a.log.iterAll.length ∧
      Uniform (a.log.iterAll.map AuditEntry.eventType) := by
  cases hclosed : a.closed with
  | true =>
      refine iff_of_false ?_ fun h => by cases h.1
      rintro ⟨es, hes, -⟩
      rw [iterAll, hclosed, if_pos rfl] at hes
      cases hes
  | false =>
      have hiter : a.iterAll = some a.log.iterAll := by rw [iterAll, hclosed, if_neg Bool.false_ne_true]
      have hnone : a.count none = some a.log.entryCount := rfl
      have hsome : ∀ t, a.count (some t) = some (if t = "" then a.log.entryCount
          else (a.log.iterAll.map AuditEntry.eventType).count t) := by
        intro t
        rw [count, Option.getD_some, hiter, Option.map_some, List.count, List.countP_map]
        by_cases ht : t = ""
        · rw [if_pos ht, if_pos ht]
        · rw [if_neg ht, if_neg ht]
          rfl
      have hsum : a.countByType a.log.iterAll = some ((a.log.iterAll.map AuditEntry.eventType).dedup.map
          fun t => if t = "" then a.log.entryCount
            else (a.log.iterAll.map AuditEntry.eventType).count t).sum := by
        rw [countByType]
        simp only [hsome]
        rw [mapM_some]
        rfl
      rw [Exact, hiter]
      simp only [Option.some.injEq, exists_eq_left', hnone, hsum, true_and]
      refine and_congr_right fun hcount => ?_
      have htypes := sum_types_iff (a.log.iterAll.map AuditEntry.eventType)
      rw [List.length_map] at htypes
      rw [hcount]
      exact htypes

/-- The entries of the segments come before those of the active file. -/
theorem iterAll_eq (a : AuditLog δ) :
    ∃ archived : List (AuditEntry δ), a.iterAll = archived ++ a.dir.active.filterMap Line.entry ∧
      ∀ e, e ∈ archived ↔ ∃ s ∈ a.dir.archive.rows, Line.holds e ∈ s.lines := by
  refine ⟨((a.dir.archive.rows.insertionSort fun s t => s.name ≤ t.name).flatMap
    Segment.lines).filterMap Line.entry, by rw [AuditLog.iterAll, List.filterMap_append],
    fun e => ?_⟩
  simp only [List.mem_filterMap, List.mem_flatMap, List.mem_insertionSort]
  constructor
  · rintro ⟨line, ⟨s, hs, hline⟩, hentry⟩
    cases line with
    | damaged => cases hentry
    | holds d =>
        obtain rfl := Option.some.inj hentry
        exact ⟨s, hs, hline⟩
  · rintro ⟨s, hs, hline⟩
    exact ⟨.holds e, ⟨s, hs, hline⟩, rfl⟩

theorem iterAll_append (a : AuditLog δ) (e : AuditEntry δ) :
    (a.append e).iterAll = a.iterAll ++ [e] := by
  rw [AuditLog.iterAll, AuditLog.iterAll, AuditLog.append, ← List.append_assoc,
    List.filterMap_append]
  rfl

/-- A segment that holds an entry is read besides the active file. -/
theorem lt_length_iterAll {a : AuditLog δ} {s : Segment δ} {e : AuditEntry δ}
    (hs : s ∈ a.dir.archive.rows) (he : Line.holds e ∈ s.lines) :
    (a.dir.active.filterMap Line.entry).length < a.iterAll.length := by
  obtain ⟨archived, hiter, hmem⟩ := iterAll_eq a
  have hpos := List.length_pos_of_mem ((hmem e).mpr ⟨s, hs, he⟩)
  rw [hiter, List.length_append]
  omega

theorem length_newer (lines : List (Line δ)) (cutoff : String) :
    ((lines.filter (Line.newer cutoff)).filterMap Line.entry).length =
      (lines.filter (Line.newer cutoff)).length := by
  induction lines with
  | nil => rfl
  | cons line lines ih =>
      by_cases hnew : line.newer cutoff = true
      · rw [List.filter_cons_of_pos hnew]
        cases line with
        | damaged => cases hnew
        | holds e =>
            rw [List.filterMap_cons_some (show Line.entry (.holds e) = some e from rfl),
              List.length_cons, List.length_cons, ih]
      · rw [List.filter_cons_of_neg hnew]
        exact ih

/-- Nothing moves out of the active file, the directory is opened again only
while it holds nothing, and the file is not closed; the empty type does not
come together with another one. -/
def Keeps (a : Handle δ) : Op δ → Prop
  | .record _ eventType _ _ =>
      (a.log.entryCount : Int) + 1 < a.log.maxSegmentSize ∧
        ∀ e ∈ a.log.iterAll, e.eventType = "" ↔ eventType = ""
  | .compact cutoff => ∀ e, Line.holds e ∈ a.log.dir.active → cutoff ≤ e.timestamp
  | .close => False
  | .reopen _ => a.log.iterAll = []

theorem uniform_append_iff (types : List String) (t : String) :
    Uniform (types ++ [t]) ↔ ∀ t' ∈ types, t' = "" ↔ t = "" := by
  constructor
  · intro hall t' ht'
    constructor
    · rintro rfl
      exact hall (List.mem_append_left _ ht') t (List.mem_append_right _ List.mem_cons_self)
    · rintro rfl
      exact hall (List.mem_append_right _ List.mem_cons_self) t' (List.mem_append_left _ ht')
  · intro hsame hempty t' ht'
    rcases List.mem_append.mp hempty with hold | hnew
    · have ht := (hsame "" hold).mp rfl
      rcases List.mem_append.mp ht' with ht' | ht'
      · exact (hsame t' ht').mpr ht
      · rw [List.mem_singleton.mp ht', ht]
    · have ht := List.mem_singleton.mp hnew
      rcases List.mem_append.mp ht' with ht' | ht'
      · exact (hsame t' ht').mpr ht.symm
      · rw [List.mem_singleton.mp ht', ← ht]

theorem exact_record_iff {a : Handle δ} (h : a.Exact) (now : DateTime) (eventType : String) (data : δ)
    (traceId : Option String) :
    (a.step (.record now eventType data traceId)).Exact ↔
      a.Keeps (.record now eventType data traceId) := by
  obtain ⟨-, hcount, -⟩ := a.exact_iff.mp h
  rw [exact_iff, step, Keeps, and_iff_right rfl, AuditLog.record]
  have hsize : (a.log.append ⟨now.utcIsoformat, eventType, data, traceId.getD ""⟩).maxSegmentSize =
      a.log.maxSegmentSize := rfl
  have hentries :
      ((a.log.append ⟨now.utcIsoformat, eventType, data, traceId.getD ""⟩).entryCount : Int) =
        a.log.entryCount + 1 := rfl
  simp only [hsize, hentries]
  by_cases hfull : a.log.maxSegmentSize ≤ a.log.entryCount + 1
  · rw [if_pos hfull]
    refine iff_of_false (fun hexact => ?_) fun hkeeps => absurd hfull (not_le.mpr hkeeps.1)
    have hlt := lt_length_iterAll
      (a := (a.log.append ⟨now.utcIsoformat, eventType, data, traceId.getD ""⟩).rotate)
      (s := ⟨(a.log.append ⟨now.utcIsoformat, eventType, data, traceId.getD ""⟩).nextName,
        (a.log.append ⟨now.utcIsoformat, eventType, data, traceId.getD ""⟩).dir.active⟩)
      (e := ⟨now.utcIsoformat, eventType, data, traceId.getD ""⟩)
      (Table.mem_rows_put.mpr (.inl rfl)) (List.mem_append_right _ List.mem_cons_self)
    rw [← hexact.1] at hlt
    exact absurd hlt (Nat.not_lt_zero _)
  · rw [if_neg hfull, and_iff_right (not_le.mp hfull)]
    rw [iterAll_append, List.length_append, List.map_append]
    refine (and_iff_right (congrArg Nat.succ hcount)).trans ?_
    refine (uniform_append_iff _ eventType).trans ?_
    simp

theorem exact_compact_iff {a : Handle δ} (h : a.Exact) (cutoff : String) :
    (a.step (.compact cutoff)).Exact ↔ a.Keeps (.compact cutoff) := by
  obtain ⟨hclosed, hcount, htypes⟩ := a.exact_iff.mp h
  have hold : a.log.dir.active.filter (Line.older cutoff) = [] ↔ a.Keeps (.compact cutoff) := by
    rw [List.filter_eq_nil_iff, Keeps]
    constructor
    · intro hall e he
      exact not_lt.mp fun hlt => hall _ he (Line.older_holds.mpr hlt)
    · intro hall line hline holder
      cases line with
      | damaged => cases holder
      | holds e => exact absurd (Line.older_holds.mp holder) (not_lt.mpr (hall e hline))
  rw [exact_iff, step, ← hold, AuditLog.compact]
  by_cases hnone : a.log.dir.active.filter (Line.older cutoff) = []
  · simp only [hnone, if_true, hclosed, Bool.false_and, iff_true]
    exact ⟨trivial, hcount, htypes⟩
  · simp only [hnone, if_false, iff_false]
    rintro ⟨-, hexact, -⟩
    obtain ⟨line, hline⟩ := List.exists_mem_of_ne_nil _ hnone
    obtain ⟨hmem, holder⟩ := List.mem_filter.mp hline
    cases line with
    | damaged => cases holder
    | holds e =>
        have hlt := lt_length_iterAll (a := { a.log with
          dir :=
            { active := a.log.dir.active.filter (Line.newer cutoff)
              archive := a.log.dir.archive.put
                ⟨a.log.nextName, a.log.dir.active.filter (Line.older cutoff)⟩
              index := some (a.log.updateIndex ⟨a.log.nextName,
                segmentStart (a.log.dir.active.filter (Line.older cutoff)), cutoff,
                (a.log.dir.active.filter (Line.older cutoff)).length⟩) }
          entryCount := (a.log.dir.active.filter (Line.newer cutoff)).length })
          (Table.mem_rows_put.mpr (.inl rfl)) hline
        rw [length_newer] at hlt
        exact absurd hexact hlt.ne

theorem step_exact_iff {a : Handle δ} (h : a.Exact) (op : Op δ) : (a.step op).Exact ↔ a.Keeps op := by
  cases op with
  | record now eventType data traceId => exact exact_record_iff h now eventType data traceId
  | compact cutoff => exact exact_compact_iff h cutoff
  | close =>
      rw [exact_iff]
      exact iff_of_false (fun hexact => by cases hexact.1) id
  | reopen maxSegmentSize =>
      have hread : (a.step (.reopen maxSegmentSize)).log.iterAll = a.log.iterAll := rfl
      have hzero : (a.step (.reopen maxSegmentSize)).log.entryCount = 0 := rfl
      rw [exact_iff, hread, hzero, Keeps]
      constructor
      · rintro ⟨-, hlength, -⟩
        exact List.length_eq_zero_iff.mp hlength.symm
      · intro hempty
        rw [hempty]
        exact ⟨rfl, rfl, fun hmem => absurd hmem List.not_mem_nil⟩

/-- The count is exact in every state of a run just where the counter and the
log never part. -/
theorem count_exact_iff (maxSegmentSize : Int) (ops : List (Op δ)) :
    Always step Exact (start maxSegmentSize) ops ↔ Steps step Keeps (start maxSegmentSize) ops :=
  along_iff_steps (fun _ => True) (fun _ _ _ => trivial)
    (fun _ op _ h => (and_iff_left trivial).trans (step_exact_iff h op)) trivial
    ((exact_iff _).mpr ⟨rfl, rfl, fun hmem => absurd hmem List.not_mem_nil⟩) ops

/-- After a restart the counter is at zero and the log is not. -/
theorem not_count_exact :
    ¬ ∀ (maxSegmentSize : Int) (ops : List (Op Nat)),
      Always step Exact (start maxSegmentSize) ops := by
  intro h
  have hkeeps : (step (start 10000) (.record default "note" 0 none)).log.iterAll = [] :=
    ((count_exact_iff 10000 _).mp
      (h 10000 [.record default "note" 0 none, .reopen 10000])).2.2.2.1
  exact absurd hkeeps (by decide +kernel)

end Handle

end Prodinamik.Audit
