import Prodinamik.Audit.AuditLog
import Prodinamik.Lib.Run

namespace Prodinamik.Audit

open Lib Runs

variable {δ : Type}

inductive Op (δ : Type)
  | record (now : DateTime) (eventType : String) (data : δ) (traceId : Option String)
  | compact (cutoff : String)
  | restart (maxSegmentSize : Int)

def Op.time : Op δ → Option DateTime
  | record now _ _ _ => some now
  | _ => none

/-- A log and what record has returned so far. -/
structure History (δ : Type) where
  log : AuditLog δ
  recorded : List (AuditEntry δ)

namespace History

def start (maxSegmentSize : Int) : History δ := ⟨.init {} maxSegmentSize, []⟩

def step (h : History δ) : Op δ → History δ
  | .record now eventType data traceId =>
      let r := h.log.record now eventType data traceId
      ⟨r.1, h.recorded ++ [r.2]⟩
  | .compact cutoff => { h with log := (h.log.compact cutoff).1 }
  | .restart maxSegmentSize => { h with log := .init h.log.dir maxSegmentSize }

/-- The log reads back what was recorded, each entry once and in order. -/
def Conserved (h : History δ) : Prop := h.log.iterAll = h.recorded

end History

/-- The operation writes a segment. -/
def Op.Writes (h : History δ) : Op δ → Prop
  | record .. => h.log.maxSegmentSize ≤ h.log.entryCount + 1
  | compact cutoff => ∃ e, Line.holds e ∈ h.log.dir.active ∧ e.timestamp < cutoff
  | restart _ => False

/-- No segment is written beside 999 others. -/
def Op.Fits (h : History δ) (op : Op δ) : Prop :=
  op.Writes h → h.log.dir.archive.rows.length < 999

/-- The time of a new entry is not before that of an old one. -/
def Op.Follows (h : History δ) (op : Op δ) : Prop :=
  ∀ now, op.time = some now → ∀ e ∈ h.recorded, e.timestamp ≤ now.utcIsoformat

theorem utcIsoformat_le {a b : DateTime} (h : a.ticks ≤ b.ticks) :
    a.utcIsoformat ≤ b.utcIsoformat := by
  rw [← not_lt, DateTime.utcIsoformat_lt]
  omega

namespace History

theorem recorded_step (h : History δ) (op : Op δ) {e : AuditEntry δ}
    (he : e ∈ (h.step op).recorded) :
    e ∈ h.recorded ∨ ∃ now, op.time = some now ∧ e.timestamp = now.utcIsoformat := by
  cases op with
  | record now eventType data traceId =>
      rcases List.mem_append.mp he with he | he
      · exact Or.inl he
      · rw [List.mem_singleton.mp he]
        exact Or.inr ⟨now, rfl, rfl⟩
  | compact cutoff => exact Or.inl he
  | restart maxSegmentSize => exact Or.inl he

/-- Times that do not go back. -/
theorem follows_of_times {h : History δ} {ops : List (Op δ)}
    (htimes : (ops.filterMap Op.time).Pairwise fun a b => a.ticks ≤ b.ticks)
    (hold : ∀ now ∈ ops.filterMap Op.time, ∀ e ∈ h.recorded, e.timestamp ≤ now.utcIsoformat) :
    Run.Steps step Op.Follows h ops := by
  induction ops generalizing h with
  | nil => trivial
  | cons op ops ih =>
      refine ⟨trivial, ?_, ih ?_ ?_⟩
      · intro now hnow e he
        exact hold now (List.mem_filterMap.mpr ⟨op, List.mem_cons_self, hnow⟩) e he
      · exact htimes.sublist ((List.sublist_cons_self op ops).filterMap _)
      · intro now hnow e he
        rcases recorded_step h op he with he | ⟨t, ht, he⟩
        · obtain ⟨a, ha, hat⟩ := List.mem_filterMap.mp hnow
          exact hold now (List.mem_filterMap.mpr ⟨a, List.mem_cons_of_mem _ ha, hat⟩) e he
        · rw [List.filterMap_cons_some ht] at htimes
          rw [he]
          exact utcIsoformat_le (List.rel_of_pairwise_cons htimes hnow)

end History

/-- The segments are numbered from one on, and together with the active file
they hold the recorded entries in order. -/
structure Inv (h : History δ) : Prop where
  names : h.log.dir.archive.rows.map Segment.name =
    (List.range h.log.dir.archive.rows.length).map fun i => segmentName (i + 1)
  few : h.log.dir.archive.rows.length ≤ 999
  entries : h.log.dir.archive.rows.flatMap Segment.lines ++ h.log.dir.active =
    h.recorded.map Line.holds
  sorted : h.recorded.Pairwise fun d e => d.timestamp ≤ e.timestamp

section Files

variable {h : History δ}

theorem rows_sorted {rows : List (Segment δ)} (hfew : rows.length ≤ 999)
    (hnames : rows.map Segment.name = (List.range rows.length).map fun i => segmentName (i + 1)) :
    rows.Pairwise fun s t => s.name ≤ t.name := by
  have hpair : (rows.map Segment.name).Pairwise (· ≤ ·) := by
    rw [hnames, List.pairwise_map]
    refine List.pairwise_lt_range.imp_of_mem ?_
    intro i j hi hj hij
    have hi := List.mem_range.mp hi
    have hj := List.mem_range.mp hj
    exact ((segmentName_lt (by omega) (by omega)).mpr (by omega)).le
  exact List.pairwise_map.mp hpair

theorem filterMap_holds (es : List (AuditEntry δ)) : (es.map Line.holds).filterMap Line.entry = es := by
  rw [List.filterMap_map]
  exact List.filterMap_some

theorem Inv.conserved (hinv : Inv h) : h.Conserved := by
  have hsort := (rows_sorted hinv.few hinv.names).insertionSort_eq
  rw [History.Conserved, AuditLog.iterAll, hsort, hinv.entries, filterMap_holds]

/-- A new segment comes last. -/
theorem Inv.rows_put (hinv : Inv h) (hroom : h.log.dir.archive.rows.length < 999)
    (lines : List (Line δ)) :
    (h.log.dir.archive.put ⟨h.log.nextName, lines⟩).rows =
      h.log.dir.archive.rows ++ [⟨h.log.nextName, lines⟩] := by
  refine Table.rows_put_of_notMem ?_
  rw [hinv.names, List.mem_map]
  rintro ⟨i, hi, heq⟩
  have hi := List.mem_range.mp hi
  have hlt := (segmentName_lt (show i + 1 < 1000 by omega)
    (show h.log.dir.archive.rows.length + 1 < 1000 by omega)).mpr (by omega)
  exact absurd heq hlt.ne

/-- Of entries in order, those before the cutoff come first. -/
theorem filter_older_append {es : List (AuditEntry δ)}
    (hsorted : es.Pairwise fun d e => d.timestamp ≤ e.timestamp) (cutoff : String) :
    (es.map Line.holds).filter (Line.older cutoff) ++ (es.map Line.holds).filter (Line.newer cutoff) =
      es.map Line.holds := by
  induction es with
  | nil => rfl
  | cons e es ih =>
      obtain ⟨hfirst, hrest⟩ := List.pairwise_cons.mp hsorted
      rw [List.map_cons]
      rcases lt_or_ge e.timestamp cutoff with hold | hnew
      · have hnot : ¬ Line.newer cutoff (.holds e) = true := Line.newer_holds.not.mpr (not_le.mpr hold)
        rw [List.filter_cons_of_pos (Line.older_holds.mpr hold), List.filter_cons_of_neg hnot,
          List.cons_append, ih hrest]
      · have hnot : ¬ Line.older cutoff (.holds e) = true := Line.older_holds.not.mpr (not_lt.mpr hnew)
        have hnone : (es.map Line.holds).filter (Line.older cutoff) = [] := by
          rw [List.filter_eq_nil_iff]
          intro line hline
          obtain ⟨d, hd, rfl⟩ := List.mem_map.mp hline
          exact Line.older_holds.not.mpr (not_lt.mpr (hnew.trans (hfirst d hd)))
        have hall := ih hrest
        rw [hnone, List.nil_append] at hall
        rw [List.filter_cons_of_neg hnot, hnone, List.nil_append,
          List.filter_cons_of_pos (Line.newer_holds.mpr hnew), hall]

/-- A segment that takes the front of the active file. -/
theorem Inv.put {h' : History δ} (hinv : Inv h) (hroom : h.log.dir.archive.rows.length < 999)
    {lines : List (Line δ)}
    (harchive : h'.log.dir.archive = h.log.dir.archive.put ⟨h.log.nextName, lines⟩)
    (hactive : lines ++ h'.log.dir.active = h.log.dir.active)
    (hrecorded : h'.recorded = h.recorded) : Inv h' where
  names := by
    rw [harchive, hinv.rows_put hroom, List.map_append, hinv.names, List.length_append,
      List.length_singleton, List.range_succ, List.map_append]
    rfl
  few := by
    rw [harchive, hinv.rows_put hroom, List.length_append, List.length_singleton]
    omega
  entries := by
    rw [harchive, hinv.rows_put hroom, List.flatMap_append, List.flatMap_singleton, hrecorded,
      ← hinv.entries, ← hactive, List.append_assoc]
  sorted := hrecorded ▸ hinv.sorted

/-- The active file holds the last of the recorded entries. -/
theorem Inv.active (hinv : Inv h) : ∃ es : List (AuditEntry δ), h.log.dir.active = es.map Line.holds ∧
    es.Pairwise fun d e => d.timestamp ≤ e.timestamp := by
  obtain ⟨front, es, hrecorded, -, hes⟩ := List.append_eq_map_iff.mp hinv.entries
  have hsorted := hinv.sorted
  rw [hrecorded] at hsorted
  exact ⟨es, hes.symm, (List.pairwise_append.mp hsorted).2.1⟩

end Files

/-- The entry is in the active file before anything rotates. -/
theorem Inv.append {h : History δ} (hinv : Inv h) {e : AuditEntry δ}
    (hfollows : ∀ d ∈ h.recorded, d.timestamp ≤ e.timestamp) :
    Inv ⟨h.log.append e, h.recorded ++ [e]⟩ where
  names := hinv.names
  few := hinv.few
  entries := by
    rw [List.map_append, ← hinv.entries, List.append_assoc]
    rfl
  sorted := by
    rw [List.pairwise_append]
    exact ⟨hinv.sorted, List.pairwise_singleton _ _, by simpa using hfollows⟩

theorem Inv.step {h : History δ} (hinv : Inv h) {op : Op δ} (hfits : op.Fits h)
    (hfollows : op.Follows h) : Inv (h.step op) := by
  cases op with
  | record now eventType data traceId =>
      have happend := hinv.append (e := ⟨now.utcIsoformat, eventType, data, traceId.getD ""⟩)
        (hfollows now rfl)
      rw [History.step, AuditLog.record]
      split
      · rename_i hfull
        have hroom := hfits (by simpa [Op.Writes, AuditLog.append] using hfull)
        exact happend.put hroom rfl (List.append_nil _) rfl
      · exact happend
  | compact cutoff =>
      rw [History.step, AuditLog.compact]
      split
      · exact hinv
      · rename_i hold
        obtain ⟨es, hes, hsorted⟩ := hinv.active
        have hroom : h.log.dir.archive.rows.length < 999 := by
          refine hfits ?_
          obtain ⟨line, hline⟩ := List.exists_mem_of_ne_nil _ hold
          obtain ⟨hmem, hline⟩ := List.mem_filter.mp hline
          obtain ⟨e, -, rfl⟩ := List.mem_map.mp (hes ▸ hmem)
          exact ⟨e, hmem, Line.older_holds.mp hline⟩
        refine hinv.put hroom rfl ?_ rfl
        rw [hes]
        exact filter_older_append hsorted cutoff
  | restart maxSegmentSize => exact ⟨hinv.names, hinv.few, hinv.entries, hinv.sorted⟩

theorem inv_start (maxSegmentSize : Int) : Inv (History.start (δ := δ) maxSegmentSize) where
  names := rfl
  few := Nat.zero_le _
  entries := rfl
  sorted := .nil

/-- As long as at most 999 segments are written the log conserves its entries. -/
theorem conserved_always (maxSegmentSize : Int) (ops : List (Op δ))
    (htimes : (ops.filterMap Op.time).Pairwise fun a b => a.ticks ≤ b.ticks)
    (hfits : Run.Steps History.step (fun h op => op.Fits h) (.start maxSegmentSize) ops) :
    Run.Always History.step History.Conserved (.start maxSegmentSize) ops := by
  have hfollows := History.follows_of_times htimes (h := .start maxSegmentSize)
    (fun _ _ e he => absurd he List.not_mem_nil)
  have hstep : ∀ (h : History δ) (op : Op δ), Inv h → op.Fits h ∧ op.Follows h → Inv (h.step op) :=
    fun h op hinv hop => hinv.step hop.1 hop.2
  have hrun := Run.along_of_invariant hstep (inv_start maxSegmentSize) (hfits.and hfollows)
  exact hrun.imp (fun _ hinv => hinv.conserved) fun _ _ _ => trivial

def note (k : Nat) : Op Nat := .record default "note" k none

def noted (k : Nat) : AuditEntry Nat := ⟨(default : DateTime).utcIsoformat, "note", k, ""⟩

theorem conserved_always_notes :
    Run.Always History.step History.Conserved (.start 1) [note 0, .compact "2001", .restart 3, note 1] :=
  conserved_always 1 [note 0, .compact "2001", .restart 3, note 1] (by decide)
    ⟨trivial, fun _ => by decide, trivial, fun _ => by decide, trivial, fun _ => by decide, trivial,
      fun _ => by decide, trivial⟩

/-! One entry in each of a thousand segments. -/

def notedSegment (k : Nat) : Segment Nat := ⟨segmentName (k + 1), [.holds (noted k)]⟩

structure Filled (h : History Nat) (n : Nat) : Prop where
  rows : h.log.dir.archive.rows = (List.range n).map notedSegment
  active : h.log.dir.active = []
  size : h.log.maxSegmentSize = 1
  count : h.log.entryCount = 0
  recorded : h.recorded = (List.range n).map noted

theorem Filled.step {h : History Nat} {n : Nat} (hfilled : Filled h n) (hn : n < 1000) :
    Filled (h.step (note n)) (n + 1) := by
  have hlen : h.log.dir.archive.rows.length = n := by rw [hfilled.rows, List.length_map, List.length_range]
  have hnew : h.log.nextName = segmentName (n + 1) := by rw [AuditLog.nextName, hlen]
  have hput : (h.log.dir.archive.put ⟨h.log.nextName, [.holds (noted n)]⟩).rows =
      (List.range (n + 1)).map notedSegment := by
    rw [Table.rows_put_of_notMem, hfilled.rows, List.range_succ, List.map_append, hnew]
    · rfl
    · rw [hfilled.rows, List.map_map, List.mem_map, hnew]
      rintro ⟨i, hi, heq⟩
      have hi := List.mem_range.mp hi
      rcases Nat.lt_or_ge (n + 1) 1000 with hsmall | hlarge
      · exact absurd heq ((segmentName_lt (by omega) hsmall).mpr (by omega)).ne
      · have hthousand : n + 1 = 1000 := by omega
        rw [hthousand] at heq
        exact segmentName_ne_thousand (by omega) heq
  have hfull : (h.log.append (noted n)).maxSegmentSize ≤ (h.log.append (noted n)).entryCount := by
    simp [AuditLog.append, hfilled.size, hfilled.count]
  have hstep : h.step (note n) = ⟨(h.log.append (noted n)).rotate, h.recorded ++ [noted n]⟩ := by
    rw [note, History.step, AuditLog.record]
    exact congrArg (History.mk · _) (if_pos hfull)
  rw [hstep]
  refine ⟨?_, rfl, hfilled.size, rfl, ?_⟩
  · rw [← hput, AuditLog.rotate, AuditLog.append, hfilled.active]
    rfl
  · rw [hfilled.recorded, List.range_succ, List.map_append]
    rfl

theorem filled {n : Nat} (hn : n ≤ 1000) :
    Filled (((List.range n).map note).foldl History.step (.start 1)) n := by
  induction n with
  | zero => exact ⟨rfl, rfl, rfl, rfl, rfl⟩
  | succ n ih =>
      rw [List.range_succ, List.map_append, List.foldl_append]
      exact (ih (by omega)).step hn

theorem rel_of_pairwise_range {R : Nat → Nat → Prop} {n i j : Nat}
    (h : (List.range n).Pairwise R) (hij : i < j) (hj : j < n) : R i j := by
  have hlen : (List.range n).length = n := List.length_range
  have hrel := List.pairwise_iff_getElem.mp h i j (by omega) (by omega) hij
  rwa [List.getElem_range, List.getElem_range] at hrel

/-- The thousandth segment is read before the hundred and first. -/
theorem Filled.not_conserved {h : History Nat} (hfilled : Filled h 1000) : ¬ h.Conserved := by
  intro hconserved
  have hsort : (h.log.dir.archive.rows.insertionSort fun s t => s.name ≤ t.name) =
      ((List.range 1000).insertionSort fun i j => segmentName (i + 1) ≤ segmentName (j + 1)).map
        notedSegment := by
    rw [hfilled.rows]
    exact (List.map_insertionSort _ _ notedSegment _ fun _ _ _ _ => Iff.rfl).symm
  have hread : ∀ order : List Nat, ((order.map notedSegment).flatMap Segment.lines).filterMap Line.entry =
      order.map noted := by
    intro order
    induction order with
    | nil => rfl
    | cons k order ih => exact congrArg (noted k :: ·) ih
  rw [History.Conserved, AuditLog.iterAll, hsort, hfilled.active, List.append_nil, hread,
    hfilled.recorded] at hconserved
  have hinj : Function.Injective noted := fun i j hij => congrArg AuditEntry.data hij
  have hrange := List.map_injective_iff.mpr hinj hconserved
  have hsorted := List.pairwise_insertionSort
    (fun i j => segmentName (i + 1) ≤ segmentName (j + 1)) (List.range 1000)
  rw [hrange] at hsorted
  have hle := rel_of_pairwise_range hsorted (show 100 < 999 by omega) (by omega)
  exact absurd segmentName_thousand (not_lt.mpr hle)

theorem times_notes (ks : List Nat) :
    ((ks.map note).filterMap Op.time).Pairwise fun a b => a.ticks ≤ b.ticks := by
  have htimes : (ks.map note).filterMap Op.time = ks.map fun _ => default := by
    rw [List.filterMap_map]
    exact congrFun List.filterMap_eq_map ks
  rw [htimes, List.pairwise_map]
  exact List.pairwise_of_forall fun _ _ => le_rfl

theorem not_always_notes {n : Nat} (hn : n = 1000) :
    ¬ Run.Always History.step History.Conserved (.start 1) ((List.range n).map note) := by
  intro halways
  have hfilled := filled hn.le
  rw [hn] at hfilled
  exact hfilled.not_conserved (hn ▸ halways.last)

/-- With one entry a segment, a thousand entries are read back in another order. -/
theorem conservation_fails :
    (((List.range 1000).map note).filterMap Op.time).Pairwise (fun a b => a.ticks ≤ b.ticks) ∧
      ¬ Run.Always History.step History.Conserved (.start 1) ((List.range 1000).map note) :=
  ⟨times_notes _, not_always_notes rfl⟩

end Prodinamik.Audit
