import Mathlib.Data.List.Sort
import Mathlib.Order.Lattice
import Prodinamik.Lib.Table
import Prodinamik.Runs.Clock

namespace Prodinamik.Audit

open Lib Lib.Decimal Runs

structure AuditEntry (δ : Type) where
  timestamp : String
  eventType : String
  data : δ
  traceId : String
  deriving DecidableEq

/-- A line of a log file; what is not the JSON of an entry is damaged. -/
inductive Line (δ : Type)
  | damaged
  | holds (e : AuditEntry δ)
  deriving DecidableEq

structure Segment (δ : Type) where
  name : String
  lines : List (Line δ)

structure SegmentInfo where
  segment : String
  start : Option String
  stop : String
  count : Nat

/-- index.json -/
structure Index where
  segmentCount : Nat
  segments : List SegmentInfo

/-- audit.log is there from the first start on. -/
structure AuditDir (δ : Type) where
  active : List (Line δ) := []
  archive : Table (Segment.name (δ := δ)) := .empty
  index : Option Index := none

structure AuditLog (δ : Type) where
  dir : AuditDir δ
  maxSegmentSize : Int
  segmentCount : Nat
  entryCount : Nat

variable {δ : Type}

namespace Line

def entry : Line δ → Option (AuditEntry δ)
  | damaged => none
  | holds e => some e

def older (cutoff : String) : Line δ → Bool
  | damaged => false
  | holds e => e.timestamp < cutoff

def newer (cutoff : String) : Line δ → Bool
  | damaged => false
  | holds e => cutoff ≤ e.timestamp

@[simp] theorem older_holds {cutoff : String} {e : AuditEntry δ} :
    older cutoff (holds e) = true ↔ e.timestamp < cutoff := decide_eq_true_iff

@[simp] theorem newer_holds {cutoff : String} {e : AuditEntry δ} :
    newer cutoff (holds e) = true ↔ cutoff ≤ e.timestamp := decide_eq_true_iff

end Line

/-- audit_{n:03d}.jsonl.gz -/
def segmentName (n : Nat) : String :=
  String.ofList ("audit_".toList ++ ((Nat.toDigits 10 n).leftpad 3 '0' ++ ".jsonl.gz".toList))

/-- The smallest timestamp. -/
def segmentStart (lines : List (Line δ)) : Option String :=
  lines.foldl (fun start line =>
    match start, line.entry with
    | none, some e => some e.timestamp
    | some ts, some e => if e.timestamp < ts then some e.timestamp else some ts
    | start, none => start) none

namespace AuditLog

/-- A restart goes on with the files that are there and counts from zero. -/
def init (d : AuditDir δ) (maxSegmentSize : Int) : AuditLog δ where
  dir := d
  maxSegmentSize := maxSegmentSize
  segmentCount := (d.index.map Index.segmentCount).getD 0
  entryCount := 0

/-- The number of the next segment is taken from the number of files. -/
def nextName (a : AuditLog δ) : String := segmentName (a.dir.archive.rows.length + 1)

def rotate (a : AuditLog δ) : AuditLog δ where
  dir := { a.dir with
    active := []
    archive := a.dir.archive.put ⟨a.nextName, a.dir.active⟩ }
  maxSegmentSize := a.maxSegmentSize
  segmentCount := a.segmentCount + 1
  entryCount := 0

def append (a : AuditLog δ) (e : AuditEntry δ) : AuditLog δ :=
  { a with
    dir := { a.dir with active := a.dir.active ++ [.holds e] }
    entryCount := a.entryCount + 1 }

def record (a : AuditLog δ) (now : DateTime) (eventType : String) (data : δ)
    (traceId : Option String) : AuditLog δ × AuditEntry δ :=
  let e : AuditEntry δ := ⟨now.utcIsoformat, eventType, data, traceId.getD ""⟩
  let a := a.append e
  (if a.maxSegmentSize ≤ a.entryCount then a.rotate else a, e)

def updateIndex (a : AuditLog δ) (info : SegmentInfo) : Index :=
  let index := a.dir.index.getD ⟨a.segmentCount, []⟩
  { index with segments := index.segments ++ [info] }

/-- The entries before the cutoff move into a segment of their own. -/
def compact (a : AuditLog δ) (cutoff : String) : AuditLog δ × Nat :=
  let old := a.dir.active.filter (Line.older cutoff)
  if old = [] then (a, 0)
  else
    let kept := a.dir.active.filter (Line.newer cutoff)
    ({ a with
      dir :=
        { active := kept
          archive := a.dir.archive.put ⟨a.nextName, old⟩
          index := some (a.updateIndex ⟨a.nextName, segmentStart old, cutoff, old.length⟩) }
      entryCount := kept.length }, old.length)

/-- The archived segments in the order of their names, and then the active one. -/
def iterAll (a : AuditLog δ) : List (AuditEntry δ) :=
  ((a.dir.archive.rows.insertionSort fun s t => s.name ≤ t.name).flatMap Segment.lines ++
    a.dir.active).filterMap Line.entry

end AuditLog

/-! The names of the first 999 segments sort as their numbers do. -/

theorem digits_pad {n : Nat} (h : n < 1000) : (Nat.toDigits 10 n).leftpad 3 '0' = pad 3 n :=
  leftpad_toDigits (w := 2) h

theorem segmentName_toList {n : Nat} (h : n < 1000) :
    (segmentName n).toList = "audit_".toList ++ (pad 3 n ++ ".jsonl.gz".toList) := by
  rw [← digits_pad h]
  exact String.toList_ofList

theorem segmentName_lt {m n : Nat} (hm : m < 1000) (hn : n < 1000) :
    segmentName m < segmentName n ↔ m < n := by
  rw [String.lt_iff_toList_lt, segmentName_toList hm, segmentName_toList hn,
    append_lt_append_left, @pad_append_lt 3 m n hm hn, or_iff_left]
  exact fun h => lt_irrefl _ h.2

/-- The next name is longer, and sorts before most of them. -/
theorem segmentName_thousand : segmentName 1000 < segmentName 101 := by decide +kernel

theorem segmentName_ne_thousand {n : Nat} (h : n < 1000) : segmentName n ≠ segmentName 1000 := by
  have hlen : (segmentName 1000).toList.length = 19 := by decide +kernel
  intro heq
  rw [← heq, segmentName_toList h, List.length_append, List.length_append, pad_length] at hlen
  cases hlen

end Prodinamik.Audit
