import Prodinamik.Lib.Run
import Prodinamik.Plugins.PluginRepository

namespace Prodinamik.Plugins.PluginRepository

open Lib Lib.Run

/-- The calls with what their downloads and copies come to. -/
inductive Call
  | install (id : PluginId) (download : Download) (now : String)
  | installLocal (sourcePath : String) (source : Option Source) (id : PluginId) (now : String)
  | uninstall (id : PluginId)
  | reload

/-- A plugin is recorded, in memory and in the saved index, exactly if its directory
is there. -/
structure Agrees (s : PluginRepository) : Prop where
  memory : ∀ id, (s.records.get id).isSome ↔ s.dirs id = true
  index : ∀ id, (s.saved.bind (·.get id)).isSome ↔ s.dirs id = true

section

variable (storageDir : String) (remote : PluginId → Option RepositoryPlugin)

def call (s : PluginRepository) : Call → Reply × PluginRepository
  | .install id download now => s.install storageDir remote id download now
  | .installLocal sourcePath source id now => s.installLocal storageDir sourcePath source id now
  | .uninstall id => s.uninstall storageDir id
  | .reload => s.loadLocalIndex storageDir

def step (s : PluginRepository) (c : Call) : PluginRepository := (s.call storageDir remote c).2

/-- A call that reports failure changes nothing. -/
def Kept (s : PluginRepository) (c : Call) : Prop :=
  (s.call storageDir remote c).1.Fails → s.step storageDir remote c = s

end

section

variable (remote : PluginId → Option RepositoryPlugin)

/-- An installation comes to the download. -/
structure Downloads (s : PluginRepository) (id : PluginId) : Prop where
  fresh : s.records.get id = none
  compatible : ∃ plugin ∈ remote id, checkEngineCompatibility plugin.engineVersion = .ok true
  free : ¬ (id = indexFile ∧ s.saved.isSome)

/-- The checksum of what was downloaded is the right one or is not asked for. -/
def Verified (id : PluginId) (computed : String) : Prop :=
  ∀ plugin ∈ remote id, plugin.checksum = "" ∨ computed = plugin.checksum

/-- No download reports failure, no source is something other than a file or a directory
and no plugin takes the place of the index file. -/
def Orderly (s : PluginRepository) : Call → Prop
  | .install id download _ => Downloads remote s id → download ≠ .failed ∧
      (id = indexFile → ∀ computed, download = .done computed → ¬ Verified remote id computed)
  | .installLocal _ source id _ => s.pathExists id = false → source ≠ some .special ∧
      (id = indexFile → ∀ version, source ≠ some (.copied (.ok version)))
  | .uninstall _ => True
  | .reload => True

end

/-- Each record names its own directory, and the index file is no directory. -/
structure Placed (s : PluginRepository) : Prop where
  memory : ∀ r ∈ s.records.rows, r.installPath = r.id
  index : ∀ t ∈ s.saved, ∀ r ∈ t.rows, r.installPath = r.id
  file : s.saved.isSome → s.dirs indexFile = false

variable {storageDir : String} {remote : PluginId → Option RepositoryPlugin}
  {s : PluginRepository} {id : PluginId}

theorem rmtree_of_missing (hid : s.dirs id = false) : s.rmtree id = s := by
  rw [rmtree, ← hid, Function.update_eq_self]

/-- In an agreeing state the index file is no directory. -/
theorem Agrees.file (h : Agrees s) (hp : Placed s) : s.dirs indexFile = false := by
  cases hdir : s.dirs indexFile with
  | false => rfl
  | true =>
      have hsome := (h.index indexFile).mpr hdir
      cases hsaved : s.saved with
      | none =>
          rw [hsaved] at hsome
          cases hsome
      | some t =>
          have hfile := hp.file (by rw [hsaved]; rfl)
          rw [hdir] at hfile
          cases hfile

theorem Agrees.fresh_iff (h : Agrees s) : s.records.get id = none ↔ s.dirs id = false := by
  rw [← Bool.not_eq_true, ← h.memory, Bool.not_eq_true, Option.isSome_eq_false_iff,
    Option.isNone_iff_eq_none]

/-- A record that is put where its directory was made and saved. -/
theorem Agrees.put (h : Agrees s) (r : InstallRecord) :
    Agrees ⟨s.records.put r, some (s.records.put r), Function.update s.dirs r.id true⟩ := by
  have hboth : ∀ id, ((s.records.put r).get id).isSome ↔
      Function.update s.dirs r.id true id = true := by
    intro id
    rw [Table.get_put]
    by_cases hid : id = r.id
    · subst hid
      simp
    · rw [if_neg hid, Function.update_of_ne hid]
      exact h.memory id
  exact ⟨hboth, hboth⟩

/-- A record that is erased and saved with its directory removed. -/
theorem Agrees.erase (h : Agrees s) (id : PluginId) :
    Agrees ⟨s.records.erase id, some (s.records.erase id), Function.update s.dirs id false⟩ := by
  have hboth : ∀ id', ((s.records.erase id).get id').isSome ↔
      Function.update s.dirs id false id' = true := by
    intro id'
    rw [Table.get_erase]
    by_cases hid : id' = id
    · subst hid
      simp
    · rw [if_neg hid, Function.update_of_ne hid]
      exact h.memory id'
  exact ⟨hboth, hboth⟩

def madeDir (s : PluginRepository) (id : PluginId) : PluginRepository :=
  { s with dirs := Function.update s.dirs id true }

/-- A directory that is made and removed again. -/
theorem rmtree_madeDir (hid : s.dirs id = false) : (s.madeDir id).rmtree id = s := by
  rw [madeDir, rmtree, Function.update_idem, ← hid, Function.update_eq_self]

theorem record_of_free (hfile : s.dirs indexFile = false) (r : InstallRecord)
    (failure success : String) :
    s.record storageDir r failure success =
      (.answered true success, ⟨s.records.put r, some (s.records.put r), s.dirs⟩) := by
  rw [record, saveLocalIndex, if_neg (by simp [hfile])]

theorem record_of_dir (hdir : s.dirs indexFile = true) (r : InstallRecord)
    (failure success : String) :
    (s.record storageDir r failure success).1.Fails ∧
      (s.record storageDir r failure success).2 =
        { s with records := s.records.put r }.rmtree r.id := by
  rw [record, saveLocalIndex, if_pos hdir]
  exact ⟨rfl, rfl⟩

/-- What does not come to the download fails; only the file of the index is tried to be
removed. -/
theorem install_idle (storageDir : String) (h : ¬ Downloads remote s id) (download : Download)
    (now : String) :
    (s.install storageDir remote id download now).1.Fails ∧
      ((s.install storageDir remote id download now).2 = s ∨
        (id = indexFile ∧ s.saved.isSome) ∧
          (s.install storageDir remote id download now).2 = s.rmtree id) := by
  rw [install]
  cases hfresh : s.records.get id with
  | some r => exact ⟨rfl, .inl rfl⟩
  | none =>
      cases hremote : remote id with
      | none => exact ⟨rfl, .inl rfl⟩
      | some plugin =>
          simp only [Option.isSome_none, Bool.false_eq_true, if_false]
          cases hcompatible : checkEngineCompatibility plugin.engineVersion with
          | error e => exact ⟨trivial, .inl rfl⟩
          | ok compatible =>
              cases compatible with
              | false => exact ⟨rfl, .inl rfl⟩
              | true =>
                  by_cases hfree : id = indexFile ∧ s.saved.isSome
                  · rw [makedirs, if_pos hfree]
                    exact ⟨rfl, .inr ⟨hfree, rfl⟩⟩
                  · exact absurd ⟨hfresh, ⟨plugin, hremote, hcompatible⟩, hfree⟩ h

/-- What the download comes to. -/
theorem install_of_downloads (storageDir : String) (h : Downloads remote s id)
    (download : Download) (now : String) :
    (download = .failed ∧ (s.install storageDir remote id download now).1.Fails ∧
      (s.install storageDir remote id download now).2 = s.madeDir id) ∨
    ((∃ e, download = .raised e) ∨ ∃ computed, download = .done computed ∧
        ¬ Verified remote id computed) ∧
      (s.install storageDir remote id download now).1.Fails ∧
      (s.install storageDir remote id download now).2 = (s.madeDir id).rmtree id ∨
    ∃ computed, download = .done computed ∧ Verified remote id computed ∧
      ∃ r : InstallRecord, r.id = id ∧ r.installPath = id ∧ ∃ failure success,
        s.install storageDir remote id download now =
          (s.madeDir id).record storageDir r failure success := by
  obtain ⟨hfresh, ⟨plugin, hremote, hcompatible⟩, hfree⟩ := h
  rw [Option.mem_def] at hremote
  have hverified : ∀ computed, Verified remote id computed ↔
      ¬ (plugin.checksum ≠ "" ∧ computed ≠ plugin.checksum) := by
    intro computed
    rw [Verified, not_and_or, not_not, not_not]
    exact ⟨fun h => h plugin hremote, fun h p hp => by
      rw [Option.mem_def, hremote] at hp
      cases hp
      exact h⟩
  rw [install, hfresh, hremote]
  simp only [hcompatible, makedirs, if_neg hfree, Option.isSome_none, Bool.false_eq_true, if_false]
  cases download with
  | failed => exact .inl ⟨rfl, rfl, rfl⟩
  | raised e => exact .inr (.inl ⟨.inl ⟨e, rfl⟩, rfl, rfl⟩)
  | done computed =>
      by_cases hchecksum : plugin.checksum ≠ "" ∧ computed ≠ plugin.checksum
      · simp only [if_pos hchecksum]
        exact .inr (.inl ⟨.inr ⟨computed, rfl, fun h => (hverified computed).mp h hchecksum⟩,
          rfl, rfl⟩)
      · simp only [if_neg hchecksum]
        exact .inr (.inr ⟨computed, rfl, (hverified computed).mpr hchecksum, _, rfl, rfl, _, _,
          rfl⟩)

/-- What an installation from a path comes to. -/
theorem installLocal_cases (storageDir : String) (s : PluginRepository) (sourcePath : String)
    (source : Option Source) (id : PluginId) (now : String) :
    ((source = none ∨ s.pathExists id = true) ∨ ∃ e, source = some (.unlisted e)) ∧
      (s.installLocal storageDir sourcePath source id now).1.Fails ∧
      (s.installLocal storageDir sourcePath source id now).2 = s ∨
    s.pathExists id = false ∧ ((∃ e, source = some (.copied (.error e))) ∧
        (s.installLocal storageDir sourcePath source id now).1.Fails ∧
        (s.installLocal storageDir sourcePath source id now).2 = (s.madeDir id).rmtree id ∨
      ∃ r : InstallRecord, r.id = id ∧ r.installPath = id ∧ ∃ failure success,
        source = some .special ∧ s.installLocal storageDir sourcePath source id now =
            s.record storageDir r failure success ∨
        (∃ version, source = some (.copied (.ok version))) ∧
          s.installLocal storageDir sourcePath source id now =
            (s.madeDir id).record storageDir r failure success) := by
  cases source with
  | none => exact .inl ⟨.inl (.inl rfl), rfl, rfl⟩
  | some source =>
      by_cases hexists : s.pathExists id = true
      · have hresult : s.installLocal storageDir sourcePath (some source) id now =
            (.answered false ("Plugin '" ++ id.name ++ "' already installed at " ++
              path storageDir id), s) :=
          if_pos hexists
        rw [hresult]
        exact .inl ⟨.inl (.inr hexists), rfl, rfl⟩
      · have hfree : s.pathExists id = false := by simpa using hexists
        simp only [installLocal, if_neg hexists]
        cases source with
        | special => exact .inr ⟨hfree, .inr ⟨_, rfl, rfl, _, _, .inl ⟨rfl, rfl⟩⟩⟩
        | unlisted e => exact .inl ⟨.inr ⟨e, rfl⟩, rfl, rfl⟩
        | copied result =>
            cases result with
            | error e => exact .inr ⟨hfree, .inl ⟨⟨e, rfl⟩, rfl, rfl⟩⟩
            | ok version =>
                exact .inr ⟨hfree, .inr ⟨_, rfl, rfl, _, _, .inr ⟨⟨version, rfl⟩, rfl⟩⟩⟩

theorem pathExists_eq_false : s.pathExists id = false ↔
    s.dirs id = false ∧ ¬ (id = indexFile ∧ s.saved.isSome) := by
  rw [pathExists, Bool.or_eq_false_iff, Bool.and_eq_false_iff, decide_eq_false_iff_not, not_and_or,
    Bool.not_eq_true]

theorem placed_init : Placed {} where
  memory := fun _ hr => absurd hr List.not_mem_nil
  index := fun _ ht => absurd ht (Option.not_mem_none _)
  file := fun _ => rfl

theorem Placed.rmtree (h : Placed s) (id : PluginId) : Placed (s.rmtree id) := by
  refine ⟨h.memory, h.index, fun hsaved => ?_⟩
  change Function.update s.dirs id false indexFile = false
  by_cases hid : indexFile = id
  · rw [hid, Function.update_self]
  · rw [Function.update_of_ne hid]
    exact h.file hsaved

theorem Placed.madeDir (h : Placed s) (hfree : ¬ (id = indexFile ∧ s.saved.isSome)) :
    Placed (s.madeDir id) := by
  refine ⟨h.memory, h.index, fun hsaved => ?_⟩
  have hid : indexFile ≠ id := fun hid => hfree ⟨hid.symm, hsaved⟩
  change Function.update s.dirs id true indexFile = false
  rw [Function.update_of_ne hid]
  exact h.file hsaved

theorem Placed.record (h : Placed s) {r : InstallRecord} (hr : r.installPath = r.id)
    (failure success : String) : Placed (s.record storageDir r failure success).2 := by
  have hput : ∀ r' ∈ (s.records.put r).rows, r'.installPath = r'.id := by
    intro r' hr'
    obtain rfl | ⟨hold, -⟩ := Table.mem_rows_put.mp hr'
    · exact hr
    · exact h.memory r' hold
  cases hfile : s.dirs indexFile with
  | false =>
      rw [record_of_free hfile]
      exact ⟨hput, fun t ht => by cases ht; exact hput, fun _ => hfile⟩
  | true =>
      have hrow : Placed { s with records := s.records.put r } := ⟨hput, h.index, h.file⟩
      rw [(record_of_dir hfile r failure success).2]
      exact hrow.rmtree r.id

theorem Placed.uninstall (h : Placed s) (id : PluginId) :
    Placed (s.uninstall storageDir id).2 := by
  rw [PluginRepository.uninstall]
  cases hget : s.records.get id with
  | none => exact h
  | some r =>
      have hrow := h.rmtree r.installPath
      have herase : ∀ r' ∈ (s.records.erase id).rows, r'.installPath = r'.id :=
        fun r' hr' => h.memory r' (Table.mem_rows_erase.mp hr').1
      simp only [saveLocalIndex]
      split
      case h_1 => exact ⟨herase, hrow.index, hrow.file⟩
      case h_2 s' hsave =>
        split_ifs at hsave with hfile
        cases hsave
        exact ⟨herase, fun t ht => by cases ht; exact herase, fun _ => by simpa using hfile⟩

theorem Placed.load (h : Placed s) : Placed (s.loadLocalIndex storageDir).2 := by
  rw [loadLocalIndex]
  split
  case isTrue => exact h
  case isFalse =>
    refine ⟨?_, h.index, h.file⟩
    cases hsaved : s.saved with
    | none => exact fun _ hr => absurd hr List.not_mem_nil
    | some t => exact h.index t hsaved

theorem Placed.call (h : Placed s) (c : Call) : Placed (s.step storageDir remote c) := by
  cases c with
  | uninstall id => exact h.uninstall id
  | reload => exact h.load
  | install id download now =>
      change Placed (s.install storageDir remote id download now).2
      by_cases hd : Downloads remote s id
      · have hmade := h.madeDir hd.free
        obtain ⟨-, -, heq⟩ | ⟨-, -, heq⟩ | ⟨computed, -, -, r, hid, hpath, failure, success, heq⟩ :=
          install_of_downloads storageDir hd download now
        · rw [heq]
          exact hmade
        · rw [heq]
          exact hmade.rmtree id
        · rw [heq]
          exact hmade.record (hpath.trans hid.symm) failure success
      · obtain ⟨-, heq | ⟨-, heq⟩⟩ := install_idle storageDir hd download now
        · rw [heq]
          exact h
        · rw [heq]
          exact h.rmtree id
  | installLocal sourcePath source id now =>
      change Placed (s.installLocal storageDir sourcePath source id now).2
      obtain ⟨-, -, heq⟩ | ⟨hfree, ⟨-, -, heq⟩ | ⟨r, hid, hpath, failure, success, hend⟩⟩ :=
        installLocal_cases storageDir s sourcePath source id now
      · rw [heq]
        exact h
      · rw [heq]
        exact (h.madeDir (pathExists_eq_false.mp hfree).2).rmtree id
      · obtain ⟨-, heq⟩ | ⟨-, heq⟩ := hend
        · rw [heq]
          exact h.record (hpath.trans hid.symm) failure success
        · rw [heq]
          exact (h.madeDir (pathExists_eq_false.mp hfree).2).record (hpath.trans hid.symm) failure
            success

theorem Agrees.of_unchanged (h : Agrees s) {c : Call} (heq : s.step storageDir remote c = s) :
    (s.step storageDir remote c).Agrees ∧ s.Kept storageDir remote c :=
  ⟨heq.symm ▸ h, fun _ => heq⟩

/-- An installation that is recorded is right exactly if it is not in the place of the
index file. -/
theorem agrees_record_iff (hp : Placed s) (h : Agrees s) (hfresh : s.records.get id = none)
    {c : Call} {r : InstallRecord} (hid : r.id = id) {failure success : String}
    (heq : s.call storageDir remote c = (s.madeDir id).record storageDir r failure success) :
    (s.step storageDir remote c).Agrees ∧ s.Kept storageDir remote c ↔ id ≠ indexFile := by
  subst hid
  rw [Kept, step, heq]
  constructor
  · rintro ⟨hagrees, -⟩ hfile
    have hdir : (s.madeDir r.id).dirs indexFile = true := by
      change Function.update s.dirs r.id true indexFile = true
      rw [hfile, Function.update_self]
    rw [(record_of_dir hdir r failure success).2] at hagrees
    have hrecord : ((s.records.put r).get r.id).isSome = true := by
      rw [Table.get_put_self]
      rfl
    have hgone : Function.update (Function.update s.dirs r.id true) r.id false r.id = true :=
      (hagrees.memory r.id).mp hrecord
    rw [Function.update_self] at hgone
    cases hgone
  · intro hfile
    have hfree : (s.madeDir r.id).dirs indexFile = false := by
      change Function.update s.dirs r.id true indexFile = false
      rw [Function.update_of_ne hfile.symm]
      exact h.file hp
    rw [record_of_free hfree]
    exact ⟨h.put r, fun hfails => by cases hfails⟩

theorem agrees_install_iff (hp : Placed s) (h : Agrees s) (download : Download) (now : String) :
    (s.step storageDir remote (.install id download now)).Agrees ∧
        s.Kept storageDir remote (.install id download now) ↔
      s.Orderly remote (.install id download now) := by
  by_cases hd : Downloads remote s id
  · have hmissing := h.fresh_iff.mp hd.fresh
    obtain ⟨rfl, -, heq⟩ | ⟨hfailed, -, heq⟩ | ⟨computed, rfl, hverified, r, hid, -, failure,
      success, heq⟩ := install_of_downloads storageDir hd download now
    · refine iff_of_false (fun hright => ?_) fun horderly => (horderly hd).1 rfl
      have hdir := (hright.1.memory id).mpr (by
        rw [step, call, heq]
        exact Function.update_self ..)
      rw [step, call, heq] at hdir
      change (s.records.get id).isSome = true at hdir
      rw [hd.fresh] at hdir
      cases hdir
    · refine iff_of_true (h.of_unchanged (heq.trans (rmtree_madeDir hmissing))) fun _ => ?_
      obtain ⟨e, rfl⟩ | ⟨computed, rfl, hnot⟩ := hfailed
      · exact ⟨fun hdownload => (by cases hdownload), fun _ _ hdownload => (by cases hdownload)⟩
      · refine ⟨fun hdownload => (by cases hdownload), fun _ computed' hdownload => ?_⟩
        cases hdownload
        exact hnot
    · have hcall : s.call storageDir remote (.install id (.done computed) now) =
          (s.madeDir id).record storageDir r failure success := heq
      rw [agrees_record_iff hp h hd.fresh hid hcall]
      constructor
      · exact fun hfile _ => ⟨fun hdownload => (by cases hdownload), fun hid => absurd hid hfile⟩
      · exact fun horderly hfile => (horderly hd).2 hfile computed rfl hverified
  · refine iff_of_true (h.of_unchanged ?_) fun hd' => absurd hd' hd
    obtain ⟨-, heq | ⟨⟨hid, -⟩, heq⟩⟩ := install_idle storageDir hd download now
    · exact heq
    · exact heq.trans (rmtree_of_missing (hid ▸ h.file hp))

/-- A record whose directory was never made. -/
theorem not_agrees_special (hp : Placed s) (h : Agrees s) (hmissing : s.dirs id = false)
    {r : InstallRecord} (hid : r.id = id) (failure success : String) :
    ¬ (s.record storageDir r failure success).2.Agrees := by
  subst hid
  rw [record_of_free (h.file hp)]
  intro hagrees
  have hrecord : ((s.records.put r).get r.id).isSome = true := by
    rw [Table.get_put_self]
    rfl
  have hdir : s.dirs r.id = true := (hagrees.memory r.id).mp hrecord
  rw [hmissing] at hdir
  cases hdir

theorem agrees_installLocal_iff (hp : Placed s) (h : Agrees s) (sourcePath : String)
    (source : Option Source) (id : PluginId) (now : String) :
    (s.step storageDir remote (.installLocal sourcePath source id now)).Agrees ∧
        s.Kept storageDir remote (.installLocal sourcePath source id now) ↔
      s.Orderly remote (.installLocal sourcePath source id now) := by
  obtain ⟨hidle, -, heq⟩ | ⟨hfree, hcases⟩ :=
    installLocal_cases storageDir s sourcePath source id now
  · refine iff_of_true (h.of_unchanged heq) fun hfree => ?_
    obtain (rfl | hexists) | ⟨e, rfl⟩ := hidle
    · exact ⟨fun hspecial => (by cases hspecial), fun _ _ hcopied => (by cases hcopied)⟩
    · rw [hfree] at hexists
      cases hexists
    · exact ⟨fun hspecial => (by cases hspecial), fun _ _ hcopied => (by cases hcopied)⟩
  · have hmissing := (pathExists_eq_false.mp hfree).1
    obtain ⟨⟨e, rfl⟩, -, heq⟩ | ⟨r, hid, -, failure, success, hend⟩ := hcases
    · refine iff_of_true (h.of_unchanged (heq.trans (rmtree_madeDir hmissing))) fun _ => ?_
      exact ⟨fun hspecial => (by cases hspecial), fun _ _ hcopied => (by cases hcopied)⟩
    · obtain ⟨rfl, heq⟩ | ⟨⟨version, rfl⟩, heq⟩ := hend
      · refine iff_of_false (fun hright => ?_) fun horderly => (horderly hfree).1 rfl
        have hagrees : (s.record storageDir r failure success).2.Agrees := heq ▸ hright.1
        exact not_agrees_special hp h hmissing hid failure success hagrees
      · have hcall : s.call storageDir remote
            (.installLocal sourcePath (some (.copied (.ok version))) id now) =
            (s.madeDir id).record storageDir r failure success := heq
        rw [agrees_record_iff hp h (h.fresh_iff.mpr hmissing) hid hcall]
        constructor
        · exact fun hfile _ => ⟨fun hspecial => (by cases hspecial), fun hid => absurd hid hfile⟩
        · exact fun horderly hfile => (horderly hfree).2 hfile version rfl

theorem agrees_uninstall (hp : Placed s) (h : Agrees s) (id : PluginId) :
    (s.step storageDir remote (.uninstall id)).Agrees ∧
      s.Kept storageDir remote (.uninstall id) := by
  cases hget : s.records.get id with
  | none =>
      refine h.of_unchanged ?_
      rw [step, call, uninstall, hget]
  | some r =>
      have hpath : r.installPath = id :=
        (hp.memory r (Table.get_eq_some.mp hget).1).trans (Table.key_of_get hget)
      have hfile : Function.update s.dirs id false indexFile = false := by
        by_cases hid : indexFile = id
        · rw [hid, Function.update_self]
        · rw [Function.update_of_ne hid]
          exact h.file hp
      have hresult : s.call storageDir remote (.uninstall id) =
          (.answered true ("Plugin '" ++ id.name ++ "' uninstalled"),
            ⟨s.records.erase id, some (s.records.erase id), Function.update s.dirs id false⟩) := by
        rw [call, uninstall, hget]
        simp only [rmtree, hpath, saveLocalIndex, hfile, Bool.false_eq_true, if_false]
      rw [Kept, step, hresult]
      exact ⟨h.erase id, fun hfails => by cases hfails⟩

theorem agrees_reload (hp : Placed s) (h : Agrees s) :
    (s.step storageDir remote .reload).Agrees ∧ s.Kept storageDir remote .reload := by
  have hresult : s.call storageDir remote .reload =
      (.returned, { s with records := s.saved.getD Table.empty }) := by
    rw [call, loadLocalIndex, if_neg (by simp [h.file hp])]
  rw [Kept, step, hresult]
  refine ⟨⟨fun id => ?_, h.index⟩, fun hfails => absurd hfails id⟩
  rw [← h.index id]
  cases s.saved with
  | none => rfl
  | some t => rfl

/-- A call is right in an agreeing state exactly if it is orderly. -/
theorem agrees_step_iff (hp : Placed s) (h : Agrees s) (c : Call) :
    (s.step storageDir remote c).Agrees ∧ s.Kept storageDir remote c ↔ s.Orderly remote c := by
  cases c with
  | install id download now => exact agrees_install_iff hp h download now
  | installLocal sourcePath source id now =>
      exact agrees_installLocal_iff hp h sourcePath source id now
  | uninstall id => exact iff_of_true (agrees_uninstall hp h id) trivial
  | reload => exact iff_of_true (agrees_reload hp h) trivial

theorem agrees_init : Agrees {} :=
  ⟨fun _ => iff_of_false (by simp) (by simp), fun _ => iff_of_false (by simp) (by simp)⟩

/-- Along any calls the records, the index and the directories agree and a failure changes
nothing exactly if each call is orderly. -/
theorem agrees_iff (storageDir : String) (remote : PluginId → Option RepositoryPlugin)
    (calls : List Call) :
    Along (step storageDir remote) Agrees (Kept storageDir remote) {} calls ↔
      Steps (step storageDir remote) (Orderly remote) {} calls :=
  along_iff_steps Placed (fun _ c hp => hp.call c) (fun _ c hp h => agrees_step_iff hp h c)
    placed_init agrees_init calls

def slack : PluginId := ⟨"prodinamik.slack", by decide +kernel⟩

/-- An index with one plugin. -/
def slackRemote (id : PluginId) : Option RepositoryPlugin :=
  if id = slack then some { version := "1.0", checksum := "" } else none

/-- A download that reports failure leaves a directory without a record. -/
theorem not_agrees : ¬ Along (step "plugins" slackRemote) Agrees (Kept "plugins" slackRemote) {}
    [.install slack .failed "2026-05-01T10:00:00"] := by
  intro h
  have hrecord := h.last.memory slack
  revert hrecord
  decide +kernel

end Prodinamik.Plugins.PluginRepository
