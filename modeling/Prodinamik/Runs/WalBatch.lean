import Prodinamik.Runs.Ledger

namespace Prodinamik.Runs

open Lib.Decimal

/-- wal_batch_%Y%m%d_%H%M%S_%f.batch -/
def DateTime.batchName (t : DateTime) : String :=
  String.ofList ("wal_batch_".toList ++ (t.compactDate ++ '_' :: (t.compactTime ++
    '_' :: (pad 6 t.microsecond ++ ".batch".toList))))

/-- An entry and the time at which it is written. -/
structure TimedEntry where
  entry : WalEntry
  walTime : DateTime

namespace TimedEntry

def name (e : TimedEntry) : String := e.walTime.walName

def Earlier (a b : TimedEntry) : Prop := a.name ≤ b.name

instance : DecidableRel Earlier := fun a b => inferInstanceAs (Decidable (a.name ≤ b.name))

/-- The entries in the order of their write times. -/
def inOrder (items : List TimedEntry) : List WalEntry :=
  (items.insertionSort Earlier).map entry

end TimedEntry

section Operations

variable (digest : WalEntry → String)

/-- _append_wal of each entry. -/
def appendWalEach (items : List TimedEntry) : List Write :=
  items.map fun e => appendWal digest e.entry e.walTime

/-- The lines of a batch as json.loads takes them: more than one is not JSON. -/
def batchFile : List WalEntry → WalFile
  | [entry] => .holds entry (digest entry)
  | _ => .damaged

/-- _append_wal_batch -/
def appendWalBatch (entries : List WalEntry) (walTime : DateTime) : List Write :=
  if entries = [] then [] else [.appendWal walTime.batchName (batchFile digest entries)]

end Operations

theorem DateTime.batchName_toList (t : DateTime) : t.batchName.toList =
    "wal_batch_".toList ++ (t.compactDate ++ '_' :: (t.compactTime ++
      '_' :: (pad 6 t.microsecond ++ ".batch".toList))) := String.toList_ofList

/-- The name of a batch does not end as recover wants it. -/
theorem batchName_isWalName (t : DateTime) : isWalName t.batchName = false := by
  have hbatch : ".batch".toList.getLast? = some 'h' := by decide +kernel
  have hlog : ".log".toList.getLast? = some 'g' := by decide +kernel
  have hlast : t.batchName.toList.getLast? = some 'h' := by
    rw [t.batchName_toList]
    simp only [List.getLast?_append, List.getLast?_cons, hbatch, Option.some_or, Option.getD_some]
  have hnot : ¬ ".log".toList <:+ t.batchName.toList := by
    rintro ⟨s, hs⟩
    rw [← hs, List.getLast?_append, hlog] at hlast
    exact absurd (Option.some.inj hlast) (by decide)
  rw [isWalName, decide_eq_false_iff_not]
  exact fun h => hnot (List.isSuffixOf_iff_suffix.mp h.2.1)

namespace Disk

variable {digest : WalEntry → String}

/-- A file with another name is not looked at. -/
theorem entries_insert_other {d : Disk} {name : String} (hname : isWalName name = false)
    (file : WalFile) :
    ({ d with wal := d.wal.insert name file } : Disk).entries digest = d.entries digest := by
  have hfiles : ({ d with wal := d.wal.insert name file } : Disk).walFiles = d.walFiles := by
    refine (walFiles_sorted _).eq_of_mem_iff (walFiles_sorted d) fun other => ?_
    rw [mem_walFiles, mem_walFiles, AList.mem_insert]
    refine and_congr_left fun hwal => or_iff_right ?_
    rintro rfl
    rw [hname] at hwal
    exact Bool.false_ne_true hwal
  rw [entries, entries, hfiles]
  refine List.filterMap_congr fun other hother => ?_
  have hne : other ≠ name := by
    rintro rfl
    have hwal := (mem_walFiles.mp hother).2
    rw [hname] at hwal
    exact Bool.false_ne_true hwal
  simp only
  rw [AList.lookup_insert_ne hne]

/-- recover does not see what a batch writes. -/
theorem recover_batch (d : Disk) (entries : List WalEntry) (walTime : DateTime) :
    ((d.performAll (appendWalBatch digest entries walTime)).recover digest).1 =
      (d.recover digest).1 := by
  rw [appendWalBatch]
  split
  case isTrue => rfl
  case isFalse =>
    change (({ d with wal := d.wal.insert walTime.batchName (batchFile digest entries) } :
      Disk).recover digest).1 = _
    rw [recover_fst, recover_fst, entries_insert_other (batchName_isWalName walTime)]
    rfl

/-- The WAL directory after each of the entries was written. -/
def walAfter (digest : WalEntry → String) (items : List TimedEntry)
    (wal : AList fun _ : String => WalFile) : AList fun _ : String => WalFile :=
  items.foldl (fun wal e => wal.insert e.name (.holds e.entry (digest e.entry))) wal

theorem performAll_each (d : Disk) (items : List TimedEntry) :
    d.performAll (appendWalEach digest items) = { d with wal := walAfter digest items d.wal } := by
  induction items generalizing d with
  | nil => rfl
  | cons e items ih => exact ih _

theorem mem_walAfter {items : List TimedEntry} {wal : AList fun _ : String => WalFile}
    {name : String} : name ∈ walAfter digest items wal ↔ name ∈ wal ∨ name ∈ items.map (·.name) := by
  induction items generalizing wal with
  | nil => exact (or_iff_left List.not_mem_nil).symm
  | cons e items ih =>
      rw [walAfter, List.foldl_cons, ← walAfter, ih, AList.mem_insert, List.map_cons, List.mem_cons,
        or_comm (a := name = e.name), or_assoc]

theorem lookup_walAfter_other {items : List TimedEntry} {wal : AList fun _ : String => WalFile}
    {name : String} (hname : name ∉ items.map (·.name)) :
    (walAfter digest items wal).lookup name = wal.lookup name := by
  induction items generalizing wal with
  | nil => rfl
  | cons e items ih =>
      rw [List.map_cons, List.mem_cons, not_or] at hname
      rw [walAfter, List.foldl_cons, ← walAfter, ih hname.2, AList.lookup_insert_ne hname.1]

theorem lookup_walAfter {items : List TimedEntry} (hdistinct : (items.map (·.name)).Nodup)
    {wal : AList fun _ : String => WalFile} {e : TimedEntry} (he : e ∈ items) :
    (walAfter digest items wal).lookup e.name = some (.holds e.entry (digest e.entry)) := by
  induction items generalizing wal with
  | nil => exact absurd he List.not_mem_nil
  | cons x items ih =>
      rw [List.map_cons, List.nodup_cons] at hdistinct
      rw [walAfter, List.foldl_cons, ← walAfter]
      obtain rfl | he := List.mem_cons.mp he
      · rw [lookup_walAfter_other hdistinct.1, AList.lookup_insert]
      · exact ih hdistinct.2 he

/-- The new files follow the old ones in the order of their names. -/
theorem walFiles_each {d : Disk} {items : List TimedEntry}
    (hdistinct : (items.map (·.name)).Nodup)
    (hlater : ∀ name ∈ d.wal, ∀ e ∈ items, name < e.name) :
    ({ d with wal := walAfter digest items d.wal } : Disk).walFiles =
      d.walFiles ++ (items.insertionSort TimedEntry.Earlier).map (·.name) := by
  have hnames : (items.insertionSort TimedEntry.Earlier).map (·.name) =
      (items.map (·.name)).insertionSort (· ≤ ·) :=
    List.map_insertionSort _ _ _ _ fun a _ b _ => Iff.rfl
  have hnodup : ((items.map (·.name)).insertionSort (· ≤ ·)).Nodup :=
    ((List.perm_insertionSort _ _).nodup_iff).mpr hdistinct
  rw [hnames]
  refine (walFiles_sorted _).eq_of_mem_iff (List.Pairwise.sortedLT ?_) fun name => ?_
  · rw [List.pairwise_append]
    refine ⟨(walFiles_sorted d).pairwise,
      (List.sortedLE_insertionSort.sortedLT_of_nodup hnodup).pairwise, fun a ha b hb => ?_⟩
    rw [List.mem_insertionSort] at hb
    obtain ⟨e, he, rfl⟩ := List.mem_map.mp hb
    exact hlater a (mem_walFiles.mp ha).1 e he
  · rw [mem_walFiles, List.mem_append, mem_walFiles, List.mem_insertionSort]
    change name ∈ walAfter digest items d.wal ∧ _ ↔ _
    rw [mem_walAfter, or_and_right]
    refine or_congr_right (and_iff_left_of_imp fun hname => ?_)
    obtain ⟨e, -, rfl⟩ := List.mem_map.mp hname
    exact walName_isWalName e.walTime

theorem entries_each {d : Disk} {items : List TimedEntry}
    (hdistinct : (items.map (·.name)).Nodup)
    (hlater : ∀ name ∈ d.wal, ∀ e ∈ items, name < e.name) :
    (d.performAll (appendWalEach digest items)).entries digest =
      d.entries digest ++ TimedEntry.inOrder items := by
  rw [performAll_each, entries, walFiles_each hdistinct hlater, List.filterMap_append, entries]
  congr 1
  · refine List.filterMap_congr fun name hname => ?_
    have hnot : name ∉ items.map (·.name) := by
      intro hmem
      obtain ⟨e, he, rfl⟩ := List.mem_map.mp hmem
      exact lt_irrefl _ (hlater _ (mem_walFiles.mp hname).1 e he)
    simp only
    rw [lookup_walAfter_other hnot]
  · rw [TimedEntry.inOrder, List.filterMap_map]
    have hread : ∀ e ∈ items.insertionSort TimedEntry.Earlier,
        (((walAfter digest items d.wal).lookup e.name).bind (WalFile.entry? digest)) =
          some e.entry := by
      intro e he
      rw [lookup_walAfter hdistinct ((List.mem_insertionSort _).mp he)]
      exact if_pos rfl
    rw [← List.filterMap_eq_map]
    exact List.filterMap_congr hread

end Disk

namespace WalEntry

theorem foldl_replay_filter (entries : List WalEntry) (s : Snapshot) :
    entries.foldl replay s = (entries.filter fun entry => entry.slug ≠ "").foldl replay s := by
  induction entries generalizing s with
  | nil => rfl
  | cons entry entries ih =>
      by_cases hslug : entry.slug = ""
      · rw [List.foldl_cons, replay, if_pos hslug, List.filter_cons_of_neg (by simpa using hslug)]
        exact ih s
      · rw [List.filter_cons_of_pos (by simpa using hslug), List.foldl_cons, List.foldl_cons]
        exact ih _

/-- An entry without a slug is passed over. -/
theorem foldl_replay_unnamed (entries : List WalEntry) (s : Snapshot) :
    (entries.foldl replay s).lookup "" = s.lookup "" := by
  have hnone : ofSlug (entries.filter fun entry => entry.slug ≠ "") "" = [] := by
    rw [ofSlug, List.filter_filter, List.filter_eq_nil_iff]
    simp
  rw [foldl_replay_filter, foldl_replay_lookup (by simp), if_pos hnone]

theorem foldl_replay_named {slug : String} (hslug : slug ≠ "") (entries : List WalEntry)
    (s : Snapshot) : (entries.foldl replay s).lookup slug =
      if ofSlug entries slug = [] then s.lookup slug
      else some (((s.lookup slug).getD {}).update (dataOf entries slug)) := by
  have hsame : ofSlug (entries.filter fun entry => entry.slug ≠ "") slug = ofSlug entries slug := by
    rw [ofSlug, ofSlug, List.filter_filter]
    refine List.filter_congr fun entry _ => ?_
    by_cases h : entry.slug = slug
    · simp [h, hslug]
    · simp [h]
  rw [foldl_replay_filter, foldl_replay_lookup (by simp), dataOf, hsame, dataOf]

end WalEntry

/-- What is known of a slug already says everything that the entries say of it. -/
def Known (s : Snapshot) (entries : List WalEntry) (slug : String) : Prop :=
  ∃ e, s.lookup slug = some e ∧ e.update (WalEntry.dataOf entries slug) = e

/-- recover gives the same map after the batch as after the single entries exactly if the map
that it gave before knew everything that the entries say. -/
theorem recover_batch_iff (digest : WalEntry → String) (d : Disk) (items : List TimedEntry)
    (batchTime : DateTime) (hdistinct : (items.map (·.name)).Nodup)
    (hlater : ∀ name ∈ d.wal, ∀ e ∈ items, name < e.name) :
    (∀ slug, ((d.performAll (appendWalBatch digest (items.map (·.entry)) batchTime)).recover
        digest).1.lookup slug =
      ((d.performAll (appendWalEach digest items)).recover digest).1.lookup slug) ↔
      ∀ slug ≠ "", WalEntry.ofSlug (TimedEntry.inOrder items) slug ≠ [] →
        Known (d.recover digest).1 (TimedEntry.inOrder items) slug := by
  have heach : ((d.performAll (appendWalEach digest items)).recover digest).1 =
      (TimedEntry.inOrder items).foldl WalEntry.replay (d.recover digest).1 := by
    rw [Disk.recover_fst, Disk.entries_each hdistinct hlater, List.foldl_append,
      Disk.performAll_each]
    rfl
  simp only [Disk.recover_batch, heach]
  constructor
  · intro h slug hslug hsome
    have hlookup := h slug
    rw [WalEntry.foldl_replay_named hslug, if_neg hsome] at hlookup
    cases hknown : (d.recover digest).1.lookup slug with
    | none =>
        rw [hknown] at hlookup
        cases hlookup
    | some e =>
        rw [hknown] at hlookup
        exact ⟨e, hknown, (Option.some.inj hlookup).symm⟩
  · intro h slug
    obtain rfl | hslug := eq_or_ne slug ""
    · exact (WalEntry.foldl_replay_unnamed _ _).symm
    · rw [WalEntry.foldl_replay_named hslug]
      split
      case isTrue => rfl
      case isFalse hsome =>
        obtain ⟨e, he, hupdate⟩ := h slug hslug hsome
        rw [he, Option.getD_some, hupdate]

/-- The archiving of a run, which a snapshot may already tell. -/
def archiveEntry : TimedEntry := ⟨.archive "essay" "2026-05-01T10:00:00", default⟩

def archivedDisk : Disk where
  snapshot := some ((∅ : Snapshot).insert "essay"
    { status := "archived", updatedAt := "2026-05-01T10:00:00" })

theorem recover_batch_archived : ((archivedDisk.performAll (appendWalBatch (fun _ => "")
      [archiveEntry.entry] default)).recover fun _ => "").1.lookup "essay" =
    ((archivedDisk.performAll (appendWalEach (fun _ => "") [archiveEntry])).recover
      fun _ => "").1.lookup "essay" := by
  refine (recover_batch_iff (fun _ => "") archivedDisk [archiveEntry] default
    (List.nodup_singleton _) ?_).mpr ?_ "essay"
  · intro name hname
    exact absurd hname (AList.notMem_empty name)
  · intro slug _ hsome
    have hslug : slug = "essay" := by
      by_contra hne
      have hother : ¬ decide ((WalEntry.archive "essay" "2026-05-01T10:00:00").slug = slug) = true :=
        fun h => hne (of_decide_eq_true h).symm
      exact hsome (List.filter_cons_of_neg hother)
    subst hslug
    exact ⟨{ status := "archived", updatedAt := "2026-05-01T10:00:00" }, AList.lookup_insert _,
      by decide +kernel⟩

/-- A run that only a batch tells of is not recovered. -/
theorem not_recover_batch : ¬ ∀ slug, ((({} : Disk).performAll (appendWalBatch (fun _ => "")
      [.create "essay" "blog" "draft" "2026-05-01T10:00:00"] default)).recover
        fun _ => "").1.lookup slug =
    ((({} : Disk).performAll (appendWalEach (fun _ => "")
      [⟨.create "essay" "blog" "draft" "2026-05-01T10:00:00", default⟩])).recover
        fun _ => "").1.lookup slug := by
  intro h
  exact absurd (h "essay") (by decide +kernel)

end Prodinamik.Runs
