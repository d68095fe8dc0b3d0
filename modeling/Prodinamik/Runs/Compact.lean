import Prodinamik.Lib.PyList
import Prodinamik.Runs.Recover

namespace Prodinamik.Runs.Compact

open Lib.Decimal Lib.PyList Disk

variable (digest : WalEntry → String) (d : Disk)

/-- The times of a snapshot are ones that isoformat has written. -/
def Stamped (s : Snapshot) : Prop :=
  ∀ slug e, s.lookup slug = some e → ∀ time ∈ e.updatedAt, ∃ t : DateTime, time = t.isoformat

/-- The snapshot and the WAL files are such as the run manager writes. -/
structure Valid : Prop where
  stamped : Stamped d.loadSnapshot
  named : ∀ name ∈ d.walFiles, ∃ t : DateTime, name = t.walName
  held : ∀ name ∈ d.walFiles, ∃ entry : WalEntry, d.wal.lookup name = some (.holds entry (digest entry))
  slugs : ∀ entry ∈ d.entries digest, entry.slug ≠ ""
  times : ∀ entry ∈ d.entries digest, ∃ t : DateTime, entry.data.updatedAt = some t.isoformat

/-- A second recovery returns the map that the first one returned. -/
def Repeatable : Prop :=
  ∀ slug, ((d.recover digest).2.recover digest).1.lookup slug = (d.recover digest).1.lookup slug

/-- Every WAL file older than a time of the recovered map is unlinked. -/
def UnlinksOlder : Prop :=
  ∀ t : DateTime, t.walName ∈ d.walFiles →
    (∃ slug e, ∃ t' : DateTime, (d.recover digest).1.lookup slug = some e ∧
      e.updatedAt = some t'.isoformat ∧ t.ticks < t'.ticks) →
        t.walName ∉ (d.recover digest).2.walFiles

def snapEntry (slug : String) : SnapEntry := (d.loadSnapshot.lookup slug).getD {}

/-- The snapshot and the WAL together give a slug this time. -/
def Recorded (t : DateTime) : Prop :=
  ∃ slug, ((snapEntry d slug).update (WalEntry.dataOf (d.entries digest) slug)).updatedAt =
    some t.isoformat

structure Latest (t : DateTime) : Prop where
  recorded : Recorded digest d t
  greatest : ∀ t', Recorded digest d t' → t'.ticks ≤ t.ticks

/-- Whether the name of the file has a year before the given one. -/
def fromBefore (year : Nat) (name : String) : Bool := (name.toList.drop 4).take 4 < pad 4 year

def entriesOf (names : List String) : List WalEntry :=
  names.filterMap fun name => (d.wal.lookup name).bind (WalFile.entry? digest)

def entriesBefore (year : Nat) : List WalEntry :=
  entriesOf digest d (d.walFiles.filter (fromBefore year))

def entriesSince (year : Nat) : List WalEntry :=
  entriesOf digest d (d.walFiles.filter fun name => !fromBefore year name)

/-- A field that the earlier entries set is set again later, or has the same
value on the disk. -/
def FieldCovered {α : Type} (disk earlier later : Option α) : Prop :=
  earlier = none ∨ later ≠ none ∨ disk = earlier

structure Covered (disk earlier later : SnapEntry) : Prop where
  state : FieldCovered disk.state earlier.state later.state
  profile : FieldCovered disk.profile earlier.profile later.profile
  status : FieldCovered disk.status earlier.status later.status
  updatedAt : FieldCovered disk.updatedAt earlier.updatedAt later.updatedAt
  version : FieldCovered disk.version earlier.version later.version

/-- With the latest recorded time: the older WAL files are from earlier years,
and what the files from earlier years say is on the disk or said again. -/
def YearsApart : Prop :=
  ∀ latest, Latest digest d latest →
    (∀ t : DateTime, t.walName ∈ d.walFiles → t.ticks < latest.ticks → t.year < latest.year) ∧
    ∀ slug, Covered (snapEntry d slug)
      (WalEntry.dataOf (entriesBefore digest d latest.year) slug)
      (WalEntry.dataOf (entriesSince digest d latest.year) slug)

variable {digest d}

theorem or_eq_iff {α : Type} (disk earlier later : Option α) :
    (later <|> disk) = (later <|> (earlier <|> disk)) ↔ FieldCovered disk earlier later := by
  cases later <;> cases earlier <;> simp [FieldCovered]

theorem update_eq_iff (disk earlier later : SnapEntry) :
    disk.update later = (disk.update earlier).update later ↔ Covered disk earlier later := by
  rw [SnapEntry.update, SnapEntry.update, SnapEntry.update, SnapEntry.mk.injEq, or_eq_iff,
    or_eq_iff, or_eq_iff, or_eq_iff, or_eq_iff]
  constructor
  · rintro ⟨hstate, hprofile, hstatus, hupdated, hversion⟩
    exact ⟨hstate, hprofile, hstatus, hupdated, hversion⟩
  · intro h
    exact ⟨h.state, h.profile, h.status, h.updatedAt, h.version⟩

theorem fileTime_walName (t : DateTime) :
    fileTime t.walName = some (t.compactDate ++ 'T' :: t.compactTime) := by
  have hpad : ∀ w n, '_' ∉ pad w n := not_mem_pad (by decide)
  have hdate : '_' ∉ t.compactDate := by simp [DateTime.compactDate, hpad]
  have htime : '_' ∉ t.compactTime := by simp [DateTime.compactTime, hpad]
  have hstem : t.walName.toList.take (t.walName.toList.length - 4) =
      ['w', 'a', 'l'] ++ '_' :: (t.compactDate ++ '_' :: (t.compactTime ++
        '_' :: pad 6 t.microsecond)) := by
    have hname : t.walName.toList = (['w', 'a', 'l'] ++ '_' :: (t.compactDate ++
        '_' :: (t.compactTime ++ '_' :: pad 6 t.microsecond))) ++ ".log".toList := by
      rw [DateTime.walName_toList]
      simp
    rw [hname, List.length_append]
    exact List.take_left
  rw [fileTime, hstem, List.splitOn_append_cons_self_of_not_mem (by decide),
    List.splitOn_append_cons_self_of_not_mem hdate,
    List.splitOn_append_cons_self_of_not_mem htime]

/-- The string comparison decides at the fifth character: a digit against a
hyphen. -/
theorem fileTime_lt (t latest : DateTime) :
    t.compactDate ++ 'T' :: t.compactTime < latest.isoSeconds ↔ t.year < latest.year := by
  rw [DateTime.compactDate, DateTime.isoSeconds, List.append_assoc,
    pad_append_lt t.year_lt latest.year_lt, or_iff_left]
  rintro ⟨-, hlt⟩
  obtain ⟨c, rest, hcons⟩ : ∃ c rest, pad 2 t.month = c :: rest :=
    List.exists_cons_of_length_pos (by rw [pad_length]; decide)
  obtain ⟨k, hk, rfl⟩ := mem_pad (w := 2) (n := t.month) (c := c)
    (by rw [hcons]; exact List.mem_cons_self)
  have hdigit : ∀ k < 10, ¬ k.digitChar < '-' ∧ k.digitChar ≠ '-' := by decide
  rw [hcons, List.append_assoc, List.cons_append, List.cons_lt_cons_iff] at hlt
  obtain hlt | ⟨heq, -⟩ := hlt
  · exact (hdigit k hk).1 hlt
  · exact (hdigit k hk).2 heq

theorem fromBefore_walName (t : DateTime) (year : Nat) (hyear : year < 10 ^ 4) :
    fromBefore year t.walName = true ↔ t.year < year := by
  have hname : (t.walName.toList.drop 4).take 4 = pad 4 t.year := by
    rw [DateTime.walName_toList]
    change List.take 4 (t.compactDate ++ _) = _
    rw [DateTime.compactDate, List.append_assoc]
    exact List.take_left' (pad_length 4 t.year)
  have hlt := pad_append_lt t.year_lt hyear [] []
  rw [List.append_nil, List.append_nil] at hlt
  rw [fromBefore, hname, decide_eq_true_eq, hlt, or_iff_left]
  exact fun h => lt_irrefl _ h.2

theorem isoSeconds_length (t : DateTime) : t.isoSeconds.length = 19 := by
  simp [DateTime.isoSeconds, DateTime.clock]

theorem empty_lt_isoformat (t : DateTime) : "" < t.isoformat := by
  obtain ⟨c, rest, hcons⟩ : ∃ c rest, t.isoSeconds = c :: rest :=
    List.exists_cons_of_length_pos (by rw [isoSeconds_length]; decide)
  rw [String.lt_iff_toList_lt, DateTime.isoformat_toList, hcons]
  exact List.nil_lt_cons c _

/-- A map holds the time for some slug. -/
def Holds (s : Snapshot) (t : DateTime) : Prop :=
  ∃ slug e, s.lookup slug = some e ∧ e.updatedAt = some t.isoformat

theorem ticks_of_iso_le {a b : DateTime} (h : a.isoformat ≤ b.isoformat) : a.ticks ≤ b.ticks := by
  by_contra hlt
  exact absurd ((DateTime.isoformat_lt b a).mpr (not_le.mp hlt)) (not_lt.mpr h)

/-- The greatest string of a map is its latest time. -/
theorem latestTime_of_holds {s : Snapshot} (hs : Stamped s) {t : DateTime} (ht : Holds s t) :
    ∃ latest : DateTime, Holds s latest ∧ (∀ t', Holds s t' → t'.ticks ≤ latest.ticks) ∧
      latestTime s = some latest.isoSeconds := by
  have hmem : ∀ t', Holds s t' →
      t'.isoformat ∈ s.entries.map fun e => e.2.updatedAt.getD "" := by
    rintro t' ⟨slug, e, he, htime⟩
    exact List.mem_map.mpr ⟨⟨slug, e⟩, AList.mem_lookup_iff.mp he, by rw [htime]; rfl⟩
  rw [latestTime]
  cases htimes : s.entries.map fun e => e.2.updatedAt.getD "" with
  | nil =>
      rw [htimes] at hmem
      exact absurd (hmem t ht) List.not_mem_nil
  | cons first rest =>
      rw [htimes] at hmem
      have hmax := foldl_max_mem first rest
      rw [← htimes] at hmax
      obtain ⟨⟨slug, e⟩, he, hvalue⟩ := List.mem_map.mp hmax
      have hne : rest.foldl max first ≠ "" := by
        intro hempty
        have hle := le_foldl_max (hmem t ht)
        rw [hempty] at hle
        exact absurd (empty_lt_isoformat t) (not_lt.mpr hle)
      cases htime : e.updatedAt with
      | none =>
          rw [htime] at hvalue
          exact absurd hvalue.symm hne
      | some time =>
          obtain ⟨latest, rfl⟩ := hs slug e (AList.mem_lookup_iff.mpr he) time htime
          rw [htime, Option.getD_some] at hvalue
          refine ⟨latest, ⟨slug, e, AList.mem_lookup_iff.mpr he, htime⟩, fun t' ht' => ?_, ?_⟩
          · have hle := le_foldl_max (hmem t' ht')
            rw [← hvalue] at hle
            exact ticks_of_iso_le hle
          · simp only
            rw [← hvalue, DateTime.isoformat_toList, List.take_left' (isoSeconds_length latest)]

theorem latestTime_of_none {s : Snapshot} (hs : Stamped s) (hnone : ∀ t, ¬ Holds s t)
    (name : String) : outdated s name = false := by
  have hempty : ∀ time ∈ s.entries.map (fun e => e.2.updatedAt.getD ""), time = "" := by
    intro time hmem
    obtain ⟨⟨slug, e⟩, he, rfl⟩ := List.mem_map.mp hmem
    cases htime : e.updatedAt with
    | none => rfl
    | some time =>
        obtain ⟨t, rfl⟩ := hs slug e (AList.mem_lookup_iff.mpr he) time htime
        exact absurd ⟨slug, e, AList.mem_lookup_iff.mpr he, htime⟩ (hnone t)
  rw [outdated, latestTime]
  cases htimes : s.entries.map fun e => e.2.updatedAt.getD "" with
  | nil => cases fileTime name <;> rfl
  | cons first rest =>
      have hmax : rest.foldl max first = "" :=
        hempty _ (htimes ▸ foldl_max_mem first rest)
      simp only [hmax]
      cases fileTime name with
      | none => rfl
      | some file => simp

theorem year_le_of_ticks {a b : DateTime} (h : a.ticks ≤ b.ticks) : a.year ≤ b.year := by
  by_contra hlt
  have hbefore := (DateTime.before_iff b a).mp (Or.inl (not_le.mp hlt))
  omega

theorem dataOf_time {entries : List WalEntry} {slug time : String}
    (h : time ∈ (WalEntry.dataOf entries slug).updatedAt) :
    ∃ entry ∈ entries, entry.data.updatedAt = some time := by
  have hsub : ∀ entry ∈ WalEntry.ofSlug entries slug, entry ∈ entries :=
    fun entry hentry => (List.mem_filter.mp hentry).1
  rw [WalEntry.dataOf] at h
  generalize WalEntry.ofSlug entries slug = es at h hsub
  induction es using List.reverseRecOn with
  | nil => cases h
  | append_singleton es entry ih =>
      rw [List.foldl_append, List.foldl_cons, List.foldl_nil, SnapEntry.update] at h
      cases hentry : entry.data.updatedAt with
      | some time' =>
          rw [hentry] at h
          refine ⟨entry, hsub entry (by simp), ?_⟩
          cases h
          exact hentry
      | none =>
          rw [hentry] at h
          exact ih h fun e he => hsub e (List.mem_append_left _ he)

theorem recovered_lookup (h : Valid digest d) (slug : String) :
    (d.recover digest).1.lookup slug =
      if WalEntry.ofSlug (d.entries digest) slug = [] then d.loadSnapshot.lookup slug
      else some ((snapEntry d slug).update (WalEntry.dataOf (d.entries digest) slug)) :=
  WalEntry.foldl_replay_lookup h.slugs _ slug

theorem recovered_stamped (h : Valid digest d) : Stamped (d.recover digest).1 := by
  intro slug e he time htime
  rw [recovered_lookup h] at he
  split at he
  · exact h.stamped slug e he time htime
  · cases he
    rw [SnapEntry.update, Option.mem_def] at htime
    cases hdata : (WalEntry.dataOf (d.entries digest) slug).updatedAt with
    | some time' =>
        rw [hdata] at htime
        cases htime
        obtain ⟨entry, hentry, heq⟩ := dataOf_time hdata
        obtain ⟨t, ht⟩ := h.times entry hentry
        exact ⟨t, Option.some.inj (heq.symm.trans ht)⟩
    | none =>
        rw [hdata] at htime
        cases hsnap : d.loadSnapshot.lookup slug with
        | none =>
            rw [snapEntry, hsnap] at htime
            cases htime
        | some e' =>
            rw [snapEntry, hsnap] at htime
            exact h.stamped slug e' hsnap time htime

theorem recorded_iff (h : Valid digest d) (t : DateTime) :
    Recorded digest d t ↔ Holds (d.recover digest).1 t := by
  constructor
  · rintro ⟨slug, htime⟩
    by_cases hnil : WalEntry.ofSlug (d.entries digest) slug = []
    · rw [WalEntry.dataOf, hnil, List.foldl_nil, SnapEntry.update_empty, snapEntry] at htime
      cases hsnap : d.loadSnapshot.lookup slug with
      | none =>
          rw [hsnap] at htime
          cases htime
      | some e =>
          rw [hsnap] at htime
          exact ⟨slug, e, by rw [recovered_lookup h, if_pos hnil, hsnap], htime⟩
    · exact ⟨slug, _, by rw [recovered_lookup h, if_neg hnil], htime⟩
  · rintro ⟨slug, e, he, htime⟩
    refine ⟨slug, ?_⟩
    rw [recovered_lookup h] at he
    split at he
    · rename_i hnil
      rw [WalEntry.dataOf, hnil, List.foldl_nil, SnapEntry.update_empty, snapEntry, he]
      exact htime
    · cases he
      exact htime

theorem mem_foldl_erase {names : List String} {wal : AList fun _ : String => WalFile}
    {name : String} : name ∈ names.foldl (fun wal name => wal.erase name) wal ↔
      name ∈ wal ∧ name ∉ names := by
  induction names generalizing wal with
  | nil => simp
  | cons x names ih =>
      rw [List.foldl_cons, ih, AList.mem_erase, List.mem_cons, not_or]
      tauto

theorem lookup_foldl_erase {names : List String} {wal : AList fun _ : String => WalFile}
    {name : String} (h : name ∉ names) :
    (names.foldl (fun wal name => wal.erase name) wal).lookup name = wal.lookup name := by
  induction names generalizing wal with
  | nil => rfl
  | cons x names ih =>
      rw [List.mem_cons, not_or] at h
      rw [List.foldl_cons, ih h.2, AList.lookup_erase_ne h.1]

/-- Compaction leaves the files that are not outdated. -/
theorem compacted_walFiles (d : Disk) (s : Snapshot) :
    (d.compactWal s).walFiles = d.walFiles.filter fun name => !outdated s name := by
  refine (walFiles_sorted _).eq_of_mem_iff ((walFiles_sorted d).pairwise.filter _).sortedLT
    fun name => ?_
  rw [mem_walFiles, compactWal, mem_foldl_erase, List.mem_filter, mem_walFiles, List.mem_filter,
    mem_walFiles, Bool.not_eq_true']
  cases outdated s name with
  | true => simp; tauto
  | false => simp

theorem compacted_entries (d : Disk) (s : Snapshot) :
    (d.compactWal s).entries digest =
      entriesOf digest d (d.walFiles.filter fun name => !outdated s name) := by
  rw [entries, compacted_walFiles, entriesOf]
  refine List.filterMap_congr fun name hname => ?_
  rw [compactWal, lookup_foldl_erase]
  intro hmem
  have hout := (List.mem_filter.mp hmem).2
  have hnot := (List.mem_filter.mp hname).2
  rw [hout] at hnot
  exact Bool.false_ne_true hnot

/-- The files from before a year are the first ones. -/
theorem walFiles_split (h : Valid digest d) (year : Nat) (hyear : year < 10 ^ 4) :
    d.walFiles = d.walFiles.filter (fromBefore year) ++
      d.walFiles.filter fun name => !fromBefore year name := by
  refine (walFiles_sorted d).eq_of_mem_iff (List.Pairwise.sortedLT ?_) fun name => ?_
  · rw [List.pairwise_append]
    refine ⟨(walFiles_sorted d).pairwise.filter _, (walFiles_sorted d).pairwise.filter _, ?_⟩
    intro a ha b hb
    rw [List.mem_filter] at ha hb
    obtain ⟨ta, rfl⟩ := h.named a ha.1
    obtain ⟨tb, rfl⟩ := h.named b hb.1
    have hlt := (fromBefore_walName ta year hyear).mp ha.2
    have hge : ¬ tb.year < year := fun hlt' => by
      simp [(fromBefore_walName tb year hyear).mpr hlt'] at hb
    exact (DateTime.walName_lt ta tb).mpr ((DateTime.before_iff ta tb).mp (Or.inl (by omega)))
  · rw [List.mem_append, List.mem_filter, List.mem_filter, Bool.not_eq_true']
    cases fromBefore year name <;> simp

/-- Recovery unlinks the files from before the latest year, whatever their
month and day are. -/
theorem outdated_eq (h : Valid digest d) {latest : DateTime} (hl : Latest digest d latest)
    {name : String} (hname : name ∈ d.walFiles) :
    outdated (d.recover digest).1 name = fromBefore latest.year name := by
  obtain ⟨t, rfl⟩ := h.named name hname
  obtain ⟨latest', hholds, hmax, htime⟩ :=
    latestTime_of_holds (recovered_stamped h) ((recorded_iff h latest).mp hl.recorded)
  have hyear : latest'.year = latest.year := le_antisymm
    (year_le_of_ticks (hl.greatest latest' ((recorded_iff h latest').mpr hholds)))
    (year_le_of_ticks (hmax latest ((recorded_iff h latest).mp hl.recorded)))
  rw [Bool.eq_iff_iff, fromBefore_walName t latest.year latest.year_lt, ← hyear, ← fileTime_lt,
    outdated, fileTime_walName, htime, decide_eq_true_eq]

theorem unlinksOlder_iff (h : Valid digest d) {latest : DateTime} (hl : Latest digest d latest) :
    UnlinksOlder digest d ↔ ∀ t : DateTime, t.walName ∈ d.walFiles → t.ticks < latest.ticks →
      t.year < latest.year := by
  have hkept : ∀ t : DateTime, t.walName ∈ d.walFiles →
      (t.walName ∉ (d.recover digest).2.walFiles ↔ t.year < latest.year) := by
    intro t ht
    rw [← fromBefore_walName t latest.year latest.year_lt, ← outdated_eq h hl ht]
    change t.walName ∉ (d.compactWal (d.recover digest).1).walFiles ↔ _
    rw [compacted_walFiles, List.mem_filter, Bool.not_eq_true', not_and, Bool.not_eq_false]
    exact ⟨fun hout => hout ht, fun hout _ => hout⟩
  constructor
  · intro hunlinks t ht hlt
    obtain ⟨slug, e, he, htime⟩ := (recorded_iff h latest).mp hl.recorded
    exact (hkept t ht).mp (hunlinks t ht ⟨slug, e, latest, he, htime, hlt⟩)
  · rintro hyears t ht ⟨slug, e, t', he, htime, hlt⟩
    have hle := hl.greatest t' ((recorded_iff h t').mpr ⟨slug, e, he, htime⟩)
    exact (hkept t ht).mpr (hyears t ht (lt_of_lt_of_le hlt hle))

theorem covered_of_nothing (disk later : SnapEntry) : Covered disk {} later :=
  ⟨Or.inl rfl, Or.inl rfl, Or.inl rfl, Or.inl rfl, Or.inl rfl⟩

theorem repeatable_iff (h : Valid digest d) {latest : DateTime} (hl : Latest digest d latest) :
    Repeatable digest d ↔ ∀ slug, Covered (snapEntry d slug)
      (WalEntry.dataOf (entriesBefore digest d latest.year) slug)
      (WalEntry.dataOf (entriesSince digest d latest.year) slug) := by
  have hall : d.entries digest =
      entriesBefore digest d latest.year ++ entriesSince digest d latest.year := by
    rw [entriesBefore, entriesSince, entriesOf, entriesOf, ← List.filterMap_append,
      ← walFiles_split h latest.year latest.year_lt]
    rfl
  have hleft : (d.recover digest).2.entries digest = entriesSince digest d latest.year := by
    change (d.compactWal (d.recover digest).1).entries digest = _
    rw [compacted_entries, entriesSince]
    congr 1
    exact List.filter_congr fun name hname => by rw [outdated_eq h hl hname]
  have hslugs : ∀ entry ∈ entriesSince digest d latest.year, entry.slug ≠ "" :=
    fun entry hentry => h.slugs entry (hall ▸ List.mem_append_right _ hentry)
  refine forall_congr' fun slug => ?_
  rw [recovered_lookup h, recover_fst, hleft, WalEntry.foldl_replay_lookup hslugs]
  change (if _ then d.loadSnapshot.lookup slug else some ((snapEntry d slug).update _)) = _ ↔ _
  rw [hall, WalEntry.ofSlug_append, WalEntry.dataOf_append]
  generalize hbefore : entriesBefore digest d latest.year = before
  generalize entriesSince digest d latest.year = since
  have hnil : ∀ entries : List WalEntry, WalEntry.ofSlug entries slug = [] →
      WalEntry.dataOf entries slug = {} := by
    intro entries hentries
    rw [WalEntry.dataOf, hentries]
    rfl
  by_cases hsince : WalEntry.ofSlug since slug = []
  · rw [if_pos hsince, hnil since hsince, SnapEntry.update_empty]
    by_cases hb : WalEntry.ofSlug before slug = []
    · rw [if_pos (by rw [hb, hsince]; rfl), hnil before hb]
      exact iff_of_true rfl (covered_of_nothing _ _)
    · rw [if_neg fun hboth => hb (List.append_eq_nil_iff.mp hboth).1, ← update_eq_iff, SnapEntry.update_empty,
        SnapEntry.update_empty, snapEntry]
      cases hsnap : d.loadSnapshot.lookup slug with
      | some e => simp
      | none =>
          refine iff_of_false (by simp) fun heq => ?_
          have htime := WalEntry.dataOf_updatedAt hb
          have hnone := congrArg SnapEntry.updatedAt heq
          rw [Option.getD_none, SnapEntry.empty_update] at hnone
          rw [← hnone] at htime
          cases htime
  · rw [if_neg hsince, if_neg fun hboth => hsince (List.append_eq_nil_iff.mp hboth).2, Option.some.injEq, ← update_eq_iff,
      SnapEntry.update_assoc]

/-- Recovery repeats and unlinks what is old exactly when the WAL files fall
into years. -/
theorem compaction_iff (h : Valid digest d) :
    (Repeatable digest d ∧ UnlinksOlder digest d) ↔ YearsApart digest d := by
  by_cases hsome : ∃ t, Holds (d.recover digest).1 t
  · obtain ⟨t, ht⟩ := hsome
    obtain ⟨latest, hholds, hmax, -⟩ := latestTime_of_holds (recovered_stamped h) ht
    have hl : Latest digest d latest :=
      ⟨(recorded_iff h latest).mpr hholds, fun t' ht' => hmax t' ((recorded_iff h t').mp ht')⟩
    constructor
    · rintro ⟨hrepeat, hunlinks⟩ latest' hl'
      exact ⟨(unlinksOlder_iff h hl').mp hunlinks, (repeatable_iff h hl').mp hrepeat⟩
    · intro hyears
      exact ⟨(repeatable_iff h hl).mpr (hyears latest hl).2,
        (unlinksOlder_iff h hl).mpr (hyears latest hl).1⟩
  · rw [not_exists] at hsome
    have hkept : (d.recover digest).2 = d := by
      change d.compactWal (d.recover digest).1 = d
      rw [compactWal, List.filter_eq_nil_iff.mpr]
      · rfl
      · intro name _
        rw [latestTime_of_none (recovered_stamped h) hsome]
        exact Bool.false_ne_true
    refine iff_of_true ⟨fun slug => by rw [hkept], ?_⟩ ?_
    · rintro t - ⟨slug, e, t', he, htime, -⟩
      exact absurd ⟨slug, e, he, htime⟩ (hsome t')
    · intro latest hl
      exact absurd ((recorded_iff h latest).mp hl.recorded) (hsome latest)

def lastEvening : DateTime :=
  { year := 2023, month := 12, day := 31, hour := 23, minute := 0, second := 0, microsecond := 5 }

def newYear : DateTime :=
  { year := 2024, month := 1, day := 1, hour := 9, minute := 0, second := 0, microsecond := 7 }

/-- The transition of a was logged on New Year's Eve and did not get into the
snapshot, which was written next for b. -/
def carriedOver : Disk where
  snapshot := some (((∅ : Snapshot).insert "a" { state := "draft", status := "active" }).insert "b"
    { state := "draft", profile := "content", status := "active", updatedAt := newYear.isoformat })
  wal := ((∅ : AList fun _ : String => WalFile).insert lastEvening.walName
    (.holds (.transition "a" "draft" "review" 1 lastEvening.isoformat) "")).insert newYear.walName
      (.holds (.create "b" "content" "draft" newYear.isoformat) "")

theorem carriedOver_entries : carriedOver.entries (fun _ => "") =
    [.transition "a" "draft" "review" 1 lastEvening.isoformat,
      .create "b" "content" "draft" newYear.isoformat] := by
  decide

theorem carriedOver_valid : Valid (fun _ => "") carriedOver where
  stamped := by
    intro slug e he time htime
    by_cases hb : slug = "b"
    · subst hb
      cases he
      exact ⟨newYear, (Option.some.inj htime).symm⟩
    · rw [carriedOver, loadSnapshot, Option.getD_some, AList.lookup_insert_ne hb] at he
      by_cases ha : slug = "a"
      · subst ha
        cases he
        cases htime
      · rw [AList.lookup_insert_ne ha] at he
        cases he
  named := by
    have hfiles : carriedOver.walFiles = [lastEvening.walName, newYear.walName] := by decide
    rw [hfiles]
    exact List.forall_mem_cons.mpr ⟨⟨lastEvening, rfl⟩,
      List.forall_mem_singleton.mpr ⟨newYear, rfl⟩⟩
  held := by
    have hfiles : carriedOver.walFiles = [lastEvening.walName, newYear.walName] := by decide
    rw [hfiles]
    exact List.forall_mem_cons.mpr ⟨⟨_, rfl⟩, List.forall_mem_singleton.mpr ⟨_, rfl⟩⟩
  slugs := by
    rw [carriedOver_entries]
    decide
  times := by
    rw [carriedOver_entries]
    exact List.forall_mem_cons.mpr ⟨⟨lastEvening, rfl⟩,
      List.forall_mem_singleton.mpr ⟨newYear, rfl⟩⟩

theorem carriedOver_forgotten : ¬ Repeatable (fun _ => "") carriedOver := by
  intro h
  have ha := h "a"
  revert ha
  decide

/-- The second recovery has a back in draft. -/
theorem not_compaction_safe : ¬ ∀ (digest : WalEntry → String) (d : Disk), Valid digest d →
    Repeatable digest d ∧ UnlinksOlder digest d :=
  fun h => carriedOver_forgotten (h _ _ carriedOver_valid).1

theorem not_yearsApart_carriedOver : ¬ YearsApart (fun _ => "") carriedOver :=
  fun h => carriedOver_forgotten ((compaction_iff carriedOver_valid).mpr h).1

end Prodinamik.Runs.Compact
