import Prodinamik.Runs.Recover

namespace Prodinamik.Runs

open Machine

/-- Where a run stands; the version counts its updates since it was created. -/
inductive Phase
  | absent
  | active (state : String) (version : Nat)
  | archived (state : String) (version : Nat)
  deriving DecidableEq, Repr

/-- A run and the version of the last update that any run of its slug had. -/
structure Track where
  phase : Phase := .absent
  stored : Nat := 0
  deriving DecidableEq, Repr

structure Record where
  state : String
  status : String
  version : Int
  deriving DecidableEq, Repr

def Track.record (t : Track) : Option Record :=
  match t.phase with
  | .absent => none
  | .active state version => some ⟨state, "active", version⟩
  | .archived state version => some ⟨state, "archived", version⟩

abbrev Ledger := String → Track

def initialState (profile : ProductProfile) : Option String :=
  profile.stateMachine.bind fun sm => sm.config.initialStates.head?.map fun s => s.name

/-- What an operation that returns does to the run of its slug. -/
def Track.after (t : Track) : Op → Track
  | .create _ profile _ _ _ _ => { t with phase := .active ((initialState profile).getD "") 0 }
  | .update _ toState _ _ _ _ =>
    match t.phase with
    | .active _ version => ⟨.active toState (version + 1), version + 1⟩
    | _ => t
  | .archive _ _ _ _ =>
    match t.phase with
    | .active state version => { t with phase := .archived state version }
    | _ => t

namespace Ledger

variable (digest : WalEntry → String)

def after (l : Ledger) (d : Disk) (op : Op) : Ledger :=
  if (op.writes digest d).isEmpty then l
  else Function.update l op.slug ((l op.slug).after op)

/-- The disk and the ledger after operations that were not interrupted. -/
def run (ops : List Op) : Disk × Ledger :=
  ops.foldl (fun s op => (s.1.performAll (op.writes digest s.1), s.2.after digest s.1 op))
    ({}, fun _ => {})

theorem run_fst (ops : List Op) : (run digest ops).1 = runOps digest {} ops := by
  rw [run, runOps]
  generalize ({} : Disk) = d
  generalize (fun _ => {} : Ledger) = l
  induction ops generalizing d l with
  | nil => rfl
  | cons op ops ih => exact ih _ _

end Ledger

/-- The directory holds the metadata of a run in this state and version. With
plain state names the status has been read back as it was written. -/
def HoldsMeta (plain : Prop) (dir : Option RunDir) (state : String) (version : Nat) : Prop :=
  ∃ m : RunMeta, dir = some ⟨some m.write⟩ ∧ m.state = state ∧ m.version = version ∧
    (∃ n : Nat, m.iterationCount = n) ∧ (plain → Plain state ∧ m.status = "active")

/-- The run directories of a slug agree with its ledger. -/
structure DirsAgree (plain : Prop) (d : Disk) (slug : String) (t : Track) : Prop where
  active : ∀ state version, t.phase = .active state version →
    HoldsMeta plain (d.active slug) state version
  inactive : (∀ state version, t.phase ≠ .active state version) → d.active slug = none
  archived : ∀ state version, t.phase = .archived state version →
    HoldsMeta plain (d.archive slug) state version
  absent : t.phase = .absent → d.archive slug = none

/-- What a snapshot and WAL entries say about a slug agrees with its ledger. -/
structure LogsAgree (s : Snapshot) (entries : List WalEntry) (slug : String) (t : Track) :
    Prop where
  absent : t.phase = .absent → WalEntry.ofSlug entries slug = [] ∧ s.lookup slug = none
  said : ∀ r, t.record = some r → (WalEntry.dataOf entries slug).state = some r.state ∧
    (WalEntry.dataOf entries slug).status = some r.status
  stored : ((s.lookup slug).getD {}).version.getD 0 = t.stored

/-- The invariant of uninterrupted runs. -/
structure Consistent (digest : WalEntry → String) (plain : Prop) (d : Disk) (l : Ledger) :
    Prop where
  slugs : ∀ entry ∈ d.entries digest, entry.slug ≠ ""
  dirs : ∀ slug, DirsAgree plain d slug (l slug)
  logs : ∀ slug, LogsAgree d.loadSnapshot (d.entries digest) slug (l slug)

namespace WalEntry

theorem dataOf_version (entries : List WalEntry) (slug : String) :
    (dataOf entries slug).version = none := by
  have hnone : ∀ entry : WalEntry, entry.data.version = none := by
    intro entry
    cases entry <;> rfl
  rw [dataOf]
  generalize ofSlug entries slug = es
  induction es using List.reverseRecOn with
  | nil => rfl
  | append_singleton es entry ih =>
      rw [List.foldl_append, List.foldl_cons, List.foldl_nil, SnapEntry.update, hnone, ih]
      rfl

theorem dataOf_append_self (entries : List WalEntry) (entry : WalEntry) :
    dataOf (entries ++ [entry]) entry.slug = (dataOf entries entry.slug).update entry.data := by
  rw [dataOf_append]
  simp [dataOf, ofSlug]

theorem ofSlug_append_other {entries : List WalEntry} {entry : WalEntry} {slug : String}
    (h : slug ≠ entry.slug) : ofSlug (entries ++ [entry]) slug = ofSlug entries slug := by
  rw [ofSlug_append]
  simp [ofSlug, Ne.symm h]

end WalEntry

theorem snapshotUpdate_self (s : Snapshot) (slug : String) (data : SnapEntry) :
    (s.update slug data).lookup slug = some (((s.lookup slug).getD {}).update data) :=
  AList.lookup_insert s

theorem snapshotUpdate_other {slug slug' : String} (h : slug' ≠ slug) (s : Snapshot)
    (data : SnapEntry) : (s.update slug data).lookup slug' = s.lookup slug' :=
  AList.lookup_insert_ne h

theorem walName_isWalName (t : DateTime) : isWalName t.walName = true := by
  have hname : t.walName.toList = "wal_".toList ++ (t.compactDate ++ '_' :: (t.compactTime ++
      '_' :: Lib.Decimal.pad 6 t.microsecond)) ++ ".log".toList := by
    rw [DateTime.walName_toList]
    simp
  rw [isWalName, decide_eq_true_eq, hname, List.append_assoc]
  refine ⟨List.isPrefixOf_iff_prefix.mpr (List.prefix_append _ _),
    List.isSuffixOf_iff_suffix.mpr ?_, ?_⟩
  · rw [← List.append_assoc]
    exact List.suffix_append _ _
  · have hstart : "wal_".toList.length = 4 := rfl
    have hend : ".log".toList.length = 4 := rfl
    rw [List.length_append, List.length_append]
    omega

/-- A file with a later name comes last. -/
theorem walFiles_insert {d : Disk} {t : DateTime} (h : ∀ name ∈ d.wal, name < t.walName)
    (file : WalFile) :
    ({ d with wal := d.wal.insert t.walName file } : Disk).walFiles = d.walFiles ++ [t.walName] := by
  refine (Disk.walFiles_sorted _).eq_of_mem_iff (List.Pairwise.sortedLT ?_) fun name => ?_
  · rw [List.pairwise_append]
    refine ⟨(Disk.walFiles_sorted d).pairwise, List.pairwise_singleton _ _, fun a ha b hb => ?_⟩
    rw [List.mem_singleton.mp hb]
    exact h a (Disk.mem_walFiles.mp ha).1
  · rw [Disk.mem_walFiles, AList.mem_insert, List.mem_append, Disk.mem_walFiles,
      List.mem_singleton]
    constructor
    · rintro ⟨rfl | hmem, hwal⟩
      · exact Or.inr rfl
      · exact Or.inl ⟨hmem, hwal⟩
    · rintro (⟨hmem, hwal⟩ | rfl)
      · exact ⟨Or.inr hmem, hwal⟩
      · exact ⟨Or.inl rfl, walName_isWalName t⟩

theorem entries_insert (digest : WalEntry → String) {d : Disk} {t : DateTime}
    (h : ∀ name ∈ d.wal, name < t.walName) (entry : WalEntry) :
    ({ d with wal := d.wal.insert t.walName (.holds entry (digest entry)) } : Disk).entries digest =
      d.entries digest ++ [entry] := by
  have hnot : t.walName ∉ d.wal := fun hmem => lt_irrefl _ (h _ hmem)
  rw [Disk.entries, walFiles_insert h, List.filterMap_append]
  congr 1
  · refine List.filterMap_congr fun name hname => ?_
    have hne : name ≠ t.walName := by
      rintro rfl
      exact hnot (Disk.mem_walFiles.mp hname).1
    simp only
    rw [AList.lookup_insert_ne hne]
  · simp [WalFile.entry?]

theorem Disk.entries_congr {digest : WalEntry → String} {d d' : Disk} (h : d'.wal = d.wal) :
    d'.entries digest = d.entries digest := by
  rw [Disk.entries, Disk.walFiles, h]
  rfl

/-- The state name that an operation writes is read back as it is. -/
def Op.plain : Op → Prop
  | .create _ profile _ _ _ _ => ∀ initial ∈ initialState profile, Plain initial
  | .update _ toState _ _ _ _ => Plain toState
  | .archive _ _ _ _ => True

def Write.logs : Write → Bool
  | .appendWal _ _ => true
  | _ => false

def Write.renames : Write → Bool
  | .renameTmp => true
  | _ => false

def Write.writesMeta : Write → Bool
  | .writeMeta _ _ => true
  | _ => false

def Write.moves : Write → Bool
  | .moveToArchive _ => true
  | _ => false

/-- The writes of an operation that does not raise, for a run that stands as t. -/
inductive Taken (digest : WalEntry → String) (plain : Prop) (d : Disk) (t : Track) :
    Op → WalEntry → SnapEntry → List Write → Prop
  | create {title : String} {profile : ProductProfile} {slug : String} {named : slug ≠ ""}
      {now walTime : DateTime} {initial : String} {m : RunMeta} {data : SnapEntry} :
      initialState profile = some initial →
      (∀ state version, t.phase ≠ .active state version) →
      HoldsMeta plain (some ⟨some m.write⟩) initial 0 → data.version = none →
      Taken digest plain d t (.create title profile slug named now walTime)
        (.create slug profile.name initial now.isoformat) data
        [.makeDir slug, .writeMeta slug m.write,
          appendWal digest (.create slug profile.name initial now.isoformat) walTime,
          .writeTmp (d.loadSnapshot.update slug data), .renameTmp]
  | update {slug toState : String} {profile : Option ProductProfile} {overrides : List Override}
      {now walTime : DateTime} {state fromState : String} {version : Nat} {m : RunMeta}
      {data : SnapEntry} :
      t.phase = .active state version → HoldsMeta plain (some ⟨some m.write⟩) toState (version + 1) →
      data.version = some ((version + 1 : Nat) : Int) →
      Taken digest plain d t (.update slug toState profile overrides now walTime)
        (.transition slug fromState toState (version + 1 : Nat) now.isoformat) data
        [appendWal digest (.transition slug fromState toState (version + 1 : Nat) now.isoformat)
            walTime,
          .writeTmp (d.loadSnapshot.update slug data), .renameTmp, .writeMeta slug m.write]
  | archive {slug : String} {now entryTime walTime : DateTime} {state : String} {version : Nat}
      {data : SnapEntry} :
      t.phase = .active state version → data.version = none →
      Taken digest plain d t (.archive slug now entryTime walTime)
        (.archive slug entryTime.isoformat) data
        ((if (d.archive slug).isSome then [.removeArchive slug] else []) ++
          [.moveToArchive slug, .writeTmp (d.loadSnapshot.update slug data), .renameTmp,
            appendWal digest (.archive slug entryTime.isoformat) walTime])

variable {digest : WalEntry → String} {plain : Prop} {d : Disk} {l : Ledger}

theorem createRun_taken {title : String} {profile : ProductProfile} {slug : String} {t : Track}
    (h : DirsAgree plain d slug t) (named : slug ≠ "") (now walTime : DateTime)
    (hplain : plain → ∀ initial ∈ initialState profile, Plain initial) :
    (Op.create title profile slug named now walTime).writes digest d = [] ∨
      ∃ entry data, Taken digest plain d t (.create title profile slug named now walTime) entry data
        ((Op.create title profile slug named now walTime).writes digest d) := by
  rw [Op.writes, createRun]
  cases hsm : profile.stateMachine with
  | none => exact Or.inl rfl
  | some sm =>
      simp only
      by_cases hexists : ((d.active slug).bind RunDir.content).isSome = true
      · rw [if_pos hexists]
        exact Or.inl rfl
      rw [if_neg hexists]
      cases hinitial : sm.config.initialStates with
      | nil => exact Or.inl rfl
      | cons initial rest =>
          have hstate : initialState profile = some initial.name := by
            rw [initialState, hsm, Option.bind_some, hinitial]
            rfl
          refine Or.inr ⟨_, _, .create hstate ?_ ⟨_, rfl, rfl, rfl, ⟨0, rfl⟩, ?_⟩ rfl⟩
          · intro state version hactive
            obtain ⟨m, hdir, -⟩ := h.active state version hactive
            rw [hdir] at hexists
            exact hexists rfl
          · exact fun hp => ⟨hplain hp _ (by rw [hstate]; rfl), rfl⟩

theorem leaving_fields (m : RunMeta) : m.leaving.version = m.version ∧ m.leaving.status = m.status ∧
    ∀ n : Nat, m.iterationCount = n → ∃ n' : Nat, m.leaving.iterationCount = n' := by
  rw [RunMeta.leaving]
  split
  · refine ⟨rfl, rfl, fun n hn => ⟨n + 1, ?_⟩⟩
    rw [hn]
    rfl
  · exact ⟨rfl, rfl, fun n hn => ⟨n, hn⟩⟩

theorem updateState_taken {slug toState : String} {profile : Option ProductProfile}
    {overrides : List Override} {t : Track} (h : DirsAgree plain d slug t) (now walTime : DateTime)
    (hplain : plain → Plain toState) :
    (Op.update slug toState profile overrides now walTime).writes digest d = [] ∨
      ∃ entry data, Taken digest plain d t (.update slug toState profile overrides now walTime)
        entry data ((Op.update slug toState profile overrides now walTime).writes digest d) := by
  rw [Op.writes, updateState]
  cases hdir : d.active slug with
  | none => exact Or.inl rfl
  | some dir =>
      have hactive : ∃ state version, t.phase = .active state version := by
        by_contra hno
        have hnone := h.inactive fun state version heq => hno ⟨state, version, heq⟩
        rw [hnone] at hdir
        cases hdir
      obtain ⟨state, version, hphase⟩ := hactive
      obtain ⟨m, hm, hstate, hversion, ⟨n, hn⟩, hstatus⟩ := h.active state version hphase
      rw [hdir, Option.some.injEq] at hm
      subst hm
      obtain ⟨m', hread, hversion', hn', hstatus'⟩ : ∃ m', RunMeta.read slug m.write = some m' ∧
          m'.version = version ∧ (∃ n : Nat, m'.iterationCount = n) ∧
            (plain → m'.status = "active") := by
        by_cases hp : plain
        · have hactive := (hstatus hp).2
          obtain ⟨m', hread, hs, -, hv, hi⟩ := RunMeta.read_write hversion hn
            (by rw [hactive]; decide) (by rw [hstate]; exact (hstatus hp).1) slug
          exact ⟨m', hread, hv, ⟨n, hi⟩, fun _ => hs.trans hactive⟩
        · obtain ⟨m', hread, hv, hi⟩ := RunMeta.read_write_numbers hversion hn slug
          exact ⟨m', hread, hv, ⟨n, hi⟩, fun hp' => absurd hp' hp⟩
      obtain ⟨n, hn⟩ := hn'
      obtain ⟨hleave, hleave', hiter⟩ := leaving_fields m'
      obtain ⟨n', hn'⟩ := hiter n hn
      simp only [Disk.readMeta, hread]
      cases checkTransition profile m'.leaving toState overrides with
      | error e => exact Or.inl rfl
      | ok _ =>
          have hnext : m'.leaving.version + 1 = ((version + 1 : Nat) : Int) := by
            rw [hleave, hversion']
            rfl
          simp only [hnext]
          exact Or.inr ⟨_, _, .update hphase ⟨_, rfl, rfl, rfl, ⟨n', hn'⟩,
            fun hp => ⟨hplain hp, hleave'.trans (hstatus' hp)⟩⟩ rfl⟩

theorem archiveRun_taken {slug : String} {t : Track} (h : DirsAgree plain d slug t)
    (now entryTime walTime : DateTime) :
    (Op.archive slug now entryTime walTime).writes digest d = [] ∨
      ∃ entry data, Taken digest plain d t (.archive slug now entryTime walTime) entry data
        ((Op.archive slug now entryTime walTime).writes digest d) := by
  rw [Op.writes, archiveRun]
  by_cases hnone : (d.active slug).isNone = true
  · rw [if_pos hnone]
    exact Or.inl rfl
  · rw [if_neg hnone]
    have hactive : ∃ state version, t.phase = .active state version := by
      by_contra hno
      exact hnone (by rw [h.inactive fun state version heq => hno ⟨state, version, heq⟩]; rfl)
    obtain ⟨state, version, hphase⟩ := hactive
    have hwrites : Taken digest plain d t (.archive slug now entryTime walTime)
        (.archive slug entryTime.isoformat)
        { status := "archived", updatedAt := now.isoformat } _ := .archive hphase rfl
    refine Or.inr ⟨.archive slug entryTime.isoformat,
      { status := "archived", updatedAt := now.isoformat }, ?_⟩
    simpa [Except.toOption, updateSnapshot] using hwrites

theorem taken (h : Consistent digest plain d l) (op : Op) (hplain : plain → op.plain) :
    op.writes digest d = [] ∨
      ∃ entry data, Taken digest plain d (l op.slug) op entry data (op.writes digest d) := by
  cases op with
  | create title profile slug named now walTime =>
      exact createRun_taken (h.dirs slug) named now walTime hplain
  | update slug toState profile overrides now walTime =>
      exact updateState_taken (h.dirs slug) now walTime hplain
  | archive slug now entryTime walTime => exact archiveRun_taken (h.dirs slug) now entryTime walTime

def logged (writes : List Write) : Bool := writes.any Write.logs

def renamed (writes : List Write) : Bool := writes.any Write.renames

section Progress

variable {t : Track} {op : Op} {entry : WalEntry} {data : SnapEntry} {ws : List Write}

theorem Taken.slug (h : Taken digest plain d t op entry data ws) : entry.slug = op.slug := by
  cases h <;> rfl

theorem Taken.ne_nil (h : Taken digest plain d t op entry data ws) : ws ≠ [] := by
  cases h with
  | create => exact List.cons_ne_nil _ _
  | update => exact List.cons_ne_nil _ _
  | archive => exact fun hnil => List.cons_ne_nil _ _ (List.append_eq_nil_iff.mp hnil).2

theorem Taken.all (h : Taken digest plain d t op entry data ws) :
    logged ws = true ∧ renamed ws = true := by
  cases h with
  | create => exact ⟨rfl, rfl⟩
  | update => exact ⟨rfl, rfl⟩
  | archive =>
      rw [logged, renamed, List.any_append, List.any_append]
      simp [Write.logs, Write.renames, appendWal]

/-- A run is created in the WAL before it is in the snapshot. -/
theorem Taken.logged_of_renamed (h : Taken digest plain d t op entry data ws)
    (habsent : t.phase = .absent) (k : Nat) (hr : renamed (ws.take k) = true) :
    logged (ws.take k) = true := by
  cases h with
  | create => match k with
    | 0 | 1 | 2 | 3 | 4 => cases hr
    | k + 5 => rfl
  | update hphase => rw [habsent] at hphase; cases hphase
  | archive hphase => rw [habsent] at hphase; cases hphase

theorem Taken.files (h : Taken digest plain d t op entry data ws) (k : Nat) :
    (d.performAll (ws.take k)).wal =
        (if logged (ws.take k) then
          d.wal.insert op.walTime.walName (.holds entry (digest entry)) else d.wal) ∧
      (d.performAll (ws.take k)).snapshot =
        if renamed (ws.take k) then some (d.loadSnapshot.update op.slug data) else d.snapshot := by
  cases h with
  | create => match k with
    | 0 | 1 | 2 | 3 | 4 => exact ⟨rfl, rfl⟩
    | k + 5 =>
        rw [List.take_of_length_le (Nat.le_add_left 5 k)]
        exact ⟨rfl, rfl⟩
  | update => match k with
    | 0 | 1 | 2 | 3 => exact ⟨rfl, rfl⟩
    | k + 4 =>
        rw [List.take_of_length_le (Nat.le_add_left 4 k)]
        exact ⟨rfl, rfl⟩
  | @archive slug now entryTime walTime state version data hphase hdata =>
      by_cases hold : (d.archive slug).isSome = true
      · rw [if_pos hold]
        match k with
        | 0 | 1 | 2 | 3 | 4 => exact ⟨rfl, rfl⟩
        | k + 5 =>
            rw [List.take_of_length_le (Nat.le_add_left 5 k)]
            exact ⟨rfl, rfl⟩
      · rw [if_neg hold]
        match k with
        | 0 | 1 | 2 | 3 => exact ⟨rfl, rfl⟩
        | k + 4 =>
            rw [List.take_of_length_le (Nat.le_add_left 4 k)]
            exact ⟨rfl, rfl⟩

/-- How far the WAL and the snapshot have come after k writes. -/
theorem Taken.progress (h : Taken digest plain d t op entry data ws)
    (hnew : ∀ name ∈ d.wal, name < op.walTime.walName) (k : Nat) :
    (d.performAll (ws.take k)).entries digest =
        (if logged (ws.take k) then d.entries digest ++ [entry] else d.entries digest) ∧
      (d.performAll (ws.take k)).loadSnapshot =
        if renamed (ws.take k) then d.loadSnapshot.update op.slug data else d.loadSnapshot := by
  obtain ⟨hwal, hsnapshot⟩ := h.files k
  constructor
  · cases hl : logged (ws.take k) with
    | true =>
        rw [hl, if_pos rfl] at hwal
        rw [if_pos rfl, ← entries_insert digest hnew]
        exact Disk.entries_congr hwal
    | false =>
        rw [hl] at hwal
        exact Disk.entries_congr hwal
  · rw [Disk.loadSnapshot, hsnapshot]
    split
    · rfl
    · rfl

/-- Where a crash leaves the run of the operation, as far as WAL and snapshot
tell. -/
def Track.cut (before after : Track) (logged renamed : Bool) : Track where
  phase := if logged then after.phase else before.phase
  stored := if renamed then after.stored else before.stored

theorem Taken.stored (h : Taken digest plain d t op entry data ws) {e : SnapEntry}
    (he : e.version.getD 0 = t.stored) : (e.update data).version.getD 0 = (t.after op).stored := by
  cases h with
  | create hinitial hinactive hm hdata =>
      rw [SnapEntry.update, hdata]
      exact he
  | update hphase hm hdata =>
      rw [SnapEntry.update, hdata, Track.after, hphase]
      rfl
  | archive hphase hdata =>
      rw [SnapEntry.update, hdata, Track.after, hphase]
      exact he

theorem Taken.said (h : Taken digest plain d t op entry data ws) {said : SnapEntry}
    (hsaid : ∀ r, t.record = some r → said.state = some r.state ∧ said.status = some r.status) :
    ∀ r, (t.after op).record = some r → (said.update entry.data).state = some r.state ∧
      (said.update entry.data).status = some r.status := by
  intro r hr
  cases h with
  | create hinitial =>
      rw [Track.after, Track.record, hinitial] at hr
      cases hr
      exact ⟨rfl, rfl⟩
  | @update slug toState profile overrides now walTime state fromState version m data hphase =>
      rw [Track.after, hphase, Track.record] at hr
      cases hr
      have hold := hsaid ⟨state, "active", version⟩ (by rw [Track.record, hphase])
      refine ⟨rfl, ?_⟩
      rw [SnapEntry.update, hold.2]
      rfl
  | @archive slug now entryTime walTime state version data hphase =>
      rw [Track.after, hphase, Track.record] at hr
      cases hr
      have hold := hsaid ⟨state, "active", version⟩ (by rw [Track.record, hphase])
      refine ⟨?_, rfl⟩
      rw [SnapEntry.update, hold.1]
      rfl

theorem Taken.present (h : Taken digest plain d t op entry data ws) :
    (t.after op).phase ≠ .absent := by
  cases h with
  | create => simp [Track.after]
  | update hphase => simp [Track.after, hphase]
  | archive hphase => simp [Track.after, hphase]

theorem Track.record_phase {t t' : Track} (h : t.phase = t'.phase) : t.record = t'.record := by
  rw [Track.record, Track.record, h]

/-- After k writes the logs agree with the cut of the run. -/
theorem Taken.logs (h : Taken digest plain d t op entry data ws)
    (hlogs : LogsAgree d.loadSnapshot (d.entries digest) op.slug t)
    (hnew : ∀ name ∈ d.wal, name < op.walTime.walName) (k : Nat) :
    LogsAgree (d.performAll (ws.take k)).loadSnapshot ((d.performAll (ws.take k)).entries digest)
      op.slug (t.cut (t.after op) (logged (ws.take k)) (renamed (ws.take k))) := by
  obtain ⟨hentries, hsnapshot⟩ := h.progress hnew k
  rw [hentries, hsnapshot]
  have horder := fun habsent => h.logged_of_renamed habsent k
  refine ⟨?_, ?_, ?_⟩
  · intro habsent
    cases hl : logged (ws.take k) with
    | true =>
        rw [Track.cut, hl] at habsent
        exact absurd habsent h.present
    | false =>
        rw [Track.cut, hl] at habsent
        have hr : renamed (ws.take k) = false := by
          cases hr : renamed (ws.take k) with
          | false => rfl
          | true => exact absurd (horder habsent hr) (by rw [hl]; exact Bool.false_ne_true)
        rw [hr]
        exact hlogs.absent habsent
  · intro r hr
    cases hl : logged (ws.take k) with
    | true =>
        have hr' : (t.after op).record = some r := by
          rw [hl] at hr
          exact hr
        rw [if_pos rfl, ← h.slug, WalEntry.dataOf_append_self]
        exact h.said (h.slug ▸ hlogs.said) r hr'
    | false =>
        have hr' : t.record = some r := by
          rw [hl] at hr
          exact hr
        exact hlogs.said r hr'
  · cases hr : renamed (ws.take k) with
    | true =>
        rw [if_pos rfl, snapshotUpdate_self, Option.getD_some]
        exact h.stored hlogs.stored
    | false => exact hlogs.stored

/-- The other slugs are not touched. -/
theorem Taken.logs_other (h : Taken digest plain d t op entry data ws) {slug : String} {t' : Track}
    (hother : slug ≠ op.slug) (hlogs : LogsAgree d.loadSnapshot (d.entries digest) slug t')
    (hnew : ∀ name ∈ d.wal, name < op.walTime.walName) (k : Nat) :
    LogsAgree (d.performAll (ws.take k)).loadSnapshot ((d.performAll (ws.take k)).entries digest)
      slug t' := by
  obtain ⟨hentries, hsnapshot⟩ := h.progress hnew k
  have hslug : WalEntry.ofSlug ((d.performAll (ws.take k)).entries digest) slug =
      WalEntry.ofSlug (d.entries digest) slug := by
    rw [hentries]
    split
    · exact WalEntry.ofSlug_append_other (h.slug ▸ hother)
    · rfl
  have hlookup : (d.performAll (ws.take k)).loadSnapshot.lookup slug =
      d.loadSnapshot.lookup slug := by
    rw [hsnapshot]
    split
    · exact snapshotUpdate_other hother _ _
    · rfl
  refine ⟨fun habsent => ?_, fun r hr => ?_, ?_⟩
  · rw [hslug, hlookup]
    exact hlogs.absent habsent
  · rw [WalEntry.dataOf, hslug]
    exact hlogs.said r hr
  · rw [hlookup]
    exact hlogs.stored

end Progress

/-- The write is about the directories of the slug. -/
def Write.touches (slug : String) : Write → Prop
  | .makeDir slug' => slug' = slug
  | .writeMeta slug' _ => slug' = slug
  | .removeArchive slug' => slug' = slug
  | .moveToArchive slug' => slug' = slug
  | _ => False

theorem perform_dirs_other {w : Write} {slug : String} (h : ¬ w.touches slug) (d : Disk) :
    (d.perform w).active slug = d.active slug ∧ (d.perform w).archive slug = d.archive slug := by
  cases w with
  | makeDir slug' => exact ⟨Function.update_of_ne (Ne.symm h) _ _, rfl⟩
  | writeMeta slug' content => exact ⟨Function.update_of_ne (Ne.symm h) _ _, rfl⟩
  | appendWal name file => exact ⟨rfl, rfl⟩
  | writeTmp snapshot => exact ⟨rfl, rfl⟩
  | renameTmp => exact ⟨rfl, rfl⟩
  | removeArchive slug' => exact ⟨rfl, Function.update_of_ne (Ne.symm h) _ _⟩
  | moveToArchive slug' =>
      exact ⟨Function.update_of_ne (Ne.symm h) _ _, Function.update_of_ne (Ne.symm h) _ _⟩

theorem performAll_dirs_other {ws : List Write} {slug : String} (h : ∀ w ∈ ws, ¬ w.touches slug)
    (d : Disk) : (d.performAll ws).active slug = d.active slug ∧
      (d.performAll ws).archive slug = d.archive slug := by
  induction ws generalizing d with
  | nil => exact ⟨rfl, rfl⟩
  | cons w ws ih =>
      obtain ⟨hactive, harchive⟩ := ih (fun w' hw' => h w' (List.mem_cons_of_mem _ hw')) (d.perform w)
      obtain ⟨hactive', harchive'⟩ := perform_dirs_other (h w List.mem_cons_self) d
      exact ⟨hactive.trans hactive', harchive.trans harchive'⟩

section Directories

variable {t : Track} {op : Op} {entry : WalEntry} {data : SnapEntry} {ws : List Write}

theorem Taken.touches (h : Taken digest plain d t op entry data ws) {w : Write} (hw : w ∈ ws)
    {slug : String} (ht : w.touches slug) : slug = op.slug := by
  cases h with
  | create =>
      simp only [List.mem_cons, List.not_mem_nil, or_false] at hw
      obtain rfl | rfl | rfl | rfl | rfl := hw
      · exact ht.symm
      · exact ht.symm
      · cases ht
      · cases ht
      · cases ht
  | update =>
      simp only [List.mem_cons, List.not_mem_nil, or_false] at hw
      obtain rfl | rfl | rfl | rfl := hw
      · cases ht
      · cases ht
      · cases ht
      · exact ht.symm
  | archive =>
      rw [List.mem_append] at hw
      obtain hw | hw := hw
      · split at hw
        · rw [List.mem_singleton.mp hw] at ht
          exact ht.symm
        · cases hw
      · simp only [List.mem_cons, List.not_mem_nil, or_false] at hw
        obtain rfl | rfl | rfl | rfl := hw
        · exact ht.symm
        · cases ht
        · cases ht
        · cases ht

theorem Taken.dirs_other (h : Taken digest plain d t op entry data ws) {slug : String}
    (hother : slug ≠ op.slug) (k : Nat) :
    (d.performAll (ws.take k)).active slug = d.active slug ∧
      (d.performAll (ws.take k)).archive slug = d.archive slug :=
  performAll_dirs_other (fun _ hw ht => hother (h.touches (List.mem_of_mem_take hw) ht)) d

theorem performAll_append (d : Disk) (xs ys : List Write) :
    d.performAll (xs ++ ys) = (d.performAll xs).performAll ys := List.foldl_append

/-- What an operation leaves in the directories of its slug. -/
theorem Taken.dirs (h : Taken digest plain d t op entry data ws)
    (hdirs : DirsAgree plain d op.slug t) :
    DirsAgree plain (d.performAll ws) op.slug (t.after op) := by
  cases h with
  | @create title profile slug named now walTime initial m data hinitial hinactive hm =>
      have hphase : (t.after (.create title profile slug named now walTime)).phase =
          .active initial 0 := by
        rw [Track.after, hinitial]
        rfl
      refine ⟨?_, fun h => absurd hphase (h _ _), ?_, ?_⟩
      · intro state version heq
        rw [hphase] at heq
        cases heq
        simpa [Disk.performAll, Disk.perform, appendWal, Op.slug] using hm
      · intro state version heq
        rw [hphase] at heq
        cases heq
      · intro heq
        rw [hphase] at heq
        cases heq
  | @update slug toState profile overrides now walTime state fromState version m data hphase hm =>
      have hafter : (t.after (.update slug toState profile overrides now walTime)).phase =
          .active toState (version + 1) := by
        rw [Track.after, hphase]
      obtain ⟨m', hm', -⟩ := hdirs.active _ _ hphase
      have hm'' : d.active slug = some ⟨some m'.write⟩ := hm'
      refine ⟨?_, fun h => absurd hafter (h _ _), ?_, ?_⟩
      · intro state version heq
        rw [hafter] at heq
        cases heq
        simpa [Disk.performAll, Disk.perform, appendWal, Op.slug, hm''] using hm
      · intro state version heq
        rw [hafter] at heq
        cases heq
      · intro heq
        rw [hafter] at heq
        cases heq
  | @archive slug now entryTime walTime state version data hphase =>
      have hafter : (t.after (.archive slug now entryTime walTime)).phase =
          .archived state version := by
        rw [Track.after, hphase]
      have hm : HoldsMeta plain (d.active slug) state version := hdirs.active _ _ hphase
      have hpre : (d.performAll
          (if (d.archive slug).isSome then [.removeArchive slug] else [])).active slug =
            d.active slug := by
        split
        · rfl
        · rfl
      rw [performAll_append]
      refine ⟨?_, ?_, ?_, ?_⟩
      · intro state version heq
        rw [hafter] at heq
        cases heq
      · intro _
        exact Function.update_self _ _ _
      · intro state version heq
        rw [hafter] at heq
        cases heq
        rw [← hpre] at hm
        simpa [Disk.performAll, Disk.perform, appendWal, Op.slug] using hm
      · intro heq
        rw [hafter] at heq
        cases heq

/-- Every run is called by its slug. -/
theorem Taken.named (h : Taken digest plain d t op entry data ws)
    (hslugs : ∀ entry ∈ d.entries digest, entry.slug ≠ "")
    (hlogs : LogsAgree d.loadSnapshot (d.entries digest) op.slug t) : op.slug ≠ "" := by
  have hof : ∀ r, t.record = some r → op.slug ≠ "" := by
    intro r hr
    obtain ⟨hstate, -⟩ := hlogs.said r hr
    obtain ⟨e, he⟩ : ∃ e, e ∈ WalEntry.ofSlug (d.entries digest) op.slug := by
      refine List.exists_mem_of_ne_nil _ fun hnil => ?_
      rw [WalEntry.dataOf, hnil] at hstate
      cases hstate
    obtain ⟨hmem, heq⟩ := List.mem_filter.mp he
    rw [← of_decide_eq_true heq]
    exact hslugs e hmem
  cases h with
  | @create title profile slug named => exact named
  | update hphase => exact hof _ (by rw [Track.record, hphase])
  | archive hphase => exact hof _ (by rw [Track.record, hphase])

end Directories

/-- An operation keeps disk and ledger together. -/
theorem Consistent.step (h : Consistent digest plain d l) {op : Op} (hplain : plain → op.plain)
    (hnew : ∀ name ∈ d.wal, name < op.walTime.walName) :
    Consistent digest plain (d.performAll (op.writes digest d)) (l.after digest d op) := by
  obtain hnil | ⟨entry, data, htaken⟩ := taken h op hplain
  · rw [Ledger.after, hnil]
    exact h
  · have hl : l.after digest d op = Function.update l op.slug ((l op.slug).after op) := by
      rw [Ledger.after, if_neg]
      rw [List.isEmpty_iff]
      exact htaken.ne_nil
    have hlogs := htaken.logs (h.logs op.slug) hnew (op.writes digest d).length
    have hother := fun slug hother => htaken.logs_other hother (h.logs slug) hnew
      (op.writes digest d).length
    have hentries := (htaken.progress hnew (op.writes digest d).length).1
    rw [List.take_length] at hlogs hentries
    rw [htaken.all.1, htaken.all.2] at hlogs
    rw [htaken.all.1, if_pos rfl] at hentries
    rw [hl]
    refine ⟨?_, fun slug => ?_, fun slug => ?_⟩
    · intro e he
      rw [hentries, List.mem_append, List.mem_singleton] at he
      obtain he | rfl := he
      · exact h.slugs e he
      · rw [htaken.slug]
        exact htaken.named h.slugs (h.logs op.slug)
    · by_cases hs : slug = op.slug
      · rw [hs, Function.update_self]
        exact htaken.dirs (h.dirs op.slug)
      · rw [Function.update_of_ne hs]
        obtain ⟨hactive, harchive⟩ := htaken.dirs_other hs (op.writes digest d).length
        rw [List.take_length] at hactive harchive
        obtain ⟨ha, hi, hr, hn⟩ := h.dirs slug
        exact ⟨hactive ▸ ha, hactive ▸ hi, harchive ▸ hr, harchive ▸ hn⟩
    · by_cases hs : slug = op.slug
      · rw [hs, Function.update_self]
        exact hlogs
      · rw [Function.update_of_ne hs]
        have := hother slug hs
        rwa [List.take_length] at this

/-- The clock moves on between two entries of the WAL. -/
def Ticking (ops : List Op) : Prop :=
  ops.Pairwise fun a b => a.walTime.ticks < b.walTime.ticks

theorem wal_of_performAll {ws : List Write} {name : String} {d : Disk}
    (h : name ∈ (d.performAll ws).wal) :
    name ∈ d.wal ∨ ∃ file, Write.appendWal name file ∈ ws := by
  induction ws generalizing d with
  | nil => exact Or.inl h
  | cons w ws ih =>
      obtain h | ⟨file, h⟩ := ih h
      · cases w with
        | appendWal name' file =>
            obtain rfl | h := (AList.mem_insert _).mp h
            · exact Or.inr ⟨file, List.mem_cons_self⟩
            · exact Or.inl h
        | _ => exact Or.inl h
      · exact Or.inr ⟨file, List.mem_cons_of_mem _ h⟩

theorem Taken.walName {t : Track} {op : Op} {entry : WalEntry} {data : SnapEntry}
    {ws : List Write} (h : Taken digest plain d t op entry data ws) {name : String}
    {file : WalFile} (hmem : Write.appendWal name file ∈ ws) : name = op.walTime.walName := by
  cases h with
  | create => simp_all [appendWal, Op.walTime]
  | update => simp_all [appendWal, Op.walTime]
  | archive =>
      rw [List.mem_append] at hmem
      obtain hmem | hmem := hmem
      · split at hmem
        · simp at hmem
        · cases hmem
      · simp_all [appendWal, Op.walTime]

theorem Consistent.created : Consistent digest plain {} fun _ => {} := by
  refine ⟨fun _ h => absurd h List.not_mem_nil, fun slug => ?_, fun slug => ?_⟩
  · exact ⟨fun _ _ h => (nomatch h), fun _ => rfl, fun _ _ h => (nomatch h), fun _ => rfl⟩
  · exact ⟨fun _ => ⟨rfl, rfl⟩, fun _ h => (nomatch h), rfl⟩

/-- Operations that are not interrupted keep disk and ledger together. -/
theorem run_consistent (digest : WalEntry → String) {ops : List Op} (hplain : plain → ∀ op ∈ ops, op.plain)
    (hticking : Ticking ops) :
    Consistent digest plain (Ledger.run digest ops).1 (Ledger.run digest ops).2 ∧
      ∀ name ∈ (Ledger.run digest ops).1.wal, ∃ op ∈ ops, name = op.walTime.walName := by
  induction ops using List.reverseRecOn with
  | nil => exact ⟨.created, fun _ h => absurd h (AList.notMem_empty _)⟩
  | append_singleton ops op ih =>
      obtain ⟨hbefore, -, hlast⟩ := List.pairwise_append.mp hticking
      obtain ⟨h, hnames⟩ := ih (fun hp o ho => hplain hp o (List.mem_append_left _ ho)) hbefore
      have hop := fun hp => hplain hp op (List.mem_append_right _ List.mem_cons_self)
      have hrun : Ledger.run digest (ops ++ [op]) =
          ((Ledger.run digest ops).1.performAll (op.writes digest (Ledger.run digest ops).1),
            (Ledger.run digest ops).2.after digest (Ledger.run digest ops).1 op) := by
        rw [Ledger.run, List.foldl_append]
        rfl
      have hnew : ∀ name ∈ (Ledger.run digest ops).1.wal, name < op.walTime.walName := by
        intro name hname
        obtain ⟨o, ho, rfl⟩ := hnames name hname
        exact (DateTime.walName_lt _ _).mpr (hlast o ho op List.mem_cons_self)
      rw [hrun]
      refine ⟨h.step hop hnew, fun name hname => ?_⟩
      obtain hold | ⟨file, hmem⟩ := wal_of_performAll hname
      · obtain ⟨o, ho, heq⟩ := hnames name hold
        exact ⟨o, List.mem_append_left _ ho, heq⟩
      · obtain hnil | ⟨entry, data, htaken⟩ := taken h op hop
        · rw [hnil] at hmem
          cases hmem
        · exact ⟨op, List.mem_append_right _ List.mem_cons_self, htaken.walName hmem⟩

end Prodinamik.Runs
