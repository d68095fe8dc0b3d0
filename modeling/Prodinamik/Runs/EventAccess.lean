import Prodinamik.Events.EventStore
import Prodinamik.Runs.Archive

namespace Prodinamik.Runs

open Machine Events

/-- A run directory with its events directory. -/
structure RunFolder where
  content : Option String := none
  events : Option EventDir := none

/-- What the run manager sees of a run directory. -/
def RunFolder.dir (f : RunFolder) : RunDir := ⟨f.content⟩

/-- The event of a number can be read from the files of the directory. -/
def RunFolder.Stores (f : RunFolder) (n : Nat) (e : Event) : Prop :=
  ∃ d, f.events = some d ∧ n ∈ d.loadIndex.1 ∧
    (d.files.lookup n).bind EventDir.parseEvent = some e

/-- The run directories, which the run manager and the event stores share. -/
structure Tree where
  active : String → Option RunFolder := fun _ => none
  archive : String → Option RunFolder := fun _ => none

namespace Tree

def disk (t : Tree) : Disk where
  active slug := (t.active slug).map RunFolder.dir
  archive slug := (t.archive slug).map RunFolder.dir

/-- The events directory of a slug, which is made if it is missing. -/
def eventsDir (t : Tree) (slug : String) : EventDir :=
  { ((t.active slug).bind RunFolder.events).getD {} with
    archived := (((t.archive slug).bind RunFolder.events).map fun d => d.files.keys).getD [] }

def openStore (t : Tree) (slug : String) : Tree × EventStore :=
  let store := EventStore.init (t.eventsDir slug)
  let folder : RunFolder := ⟨(t.active slug).bind RunFolder.content, some store.dir⟩
  ({ t with active := Function.update t.active slug (some folder) }, store)

def write {α : Type} (t : Tree) (slug : String) (s : EventStore) (o : Outcome α) : Tree :=
  let folder : RunFolder := ⟨(t.active slug).bind RunFolder.content, some (s.after o).dir⟩
  { t with active := Function.update t.active slug (some folder) }

def moveToArchive (t : Tree) (slug : String) : Tree where
  active := Function.update t.active slug none
  archive := Function.update t.archive slug (t.active slug)

/-- An event store of the slug changes no answer of the run manager, and it
returns what the archived run of the slug holds. -/
structure Undisturbed (t : Tree) (slug : String) : Prop where
  run : ∀ s, (t.openStore slug).1.disk.getRun s = t.disk.getRun s
  runs : ∀ dirs archived, listAllRuns (t.openStore slug).1.disk dirs archived =
    listAllRuns t.disk (dirs.filter fun s => (t.active s).isSome) archived
  events : ∀ f n e, t.archive slug = some f → f.Stores n e →
    (t.openStore slug).2.get n = some e

/-- No archived run is hidden by the active directory of the slug. -/
structure Unhidden (t : Tree) (slug : String) : Prop where
  run : (t.active slug).isSome ∨ ∀ f, t.archive slug = some f → f.content = none
  events : ∀ f n e, t.archive slug = some f → f.Stores n e →
    ∃ g, t.active slug = some g ∧ g.Stores n e

variable {t : Tree} {slug : String}

theorem disk_moveToArchive (t : Tree) (slug : String) :
    (t.moveToArchive slug).disk = t.disk.perform (.moveToArchive slug) := by
  simp only [disk, moveToArchive, Disk.perform, Disk.mk.injEq, and_true]
  constructor
  · funext s
    by_cases hs : s = slug
    · subst hs
      simp
    · simp [hs]
  · funext s
    by_cases hs : s = slug
    · subst hs
      simp
    · simp [hs]

theorem openStore_disk (t : Tree) (slug : String) :
    (t.openStore slug).1.disk = t.disk.perform (.makeDir slug) := by
  simp only [disk, openStore, Disk.perform, Disk.mk.injEq, and_true]
  funext s
  by_cases hs : s = slug
  · subst hs
    cases hactive : t.active s with
    | none => simp [RunFolder.dir]
    | some f => simp [RunFolder.dir]
  · simp [hs]

theorem disk_active (t : Tree) (s : String) : t.disk.active s = (t.active s).map RunFolder.dir := rfl

theorem disk_archive (t : Tree) (s : String) :
    t.disk.archive s = (t.archive s).map RunFolder.dir := rfl

theorem readMeta_eq_none {s : String} {dir : RunDir} :
    Disk.readMeta s dir = .ok none ↔ dir.content = none := by
  rw [Disk.readMeta]
  cases hcontent : dir.content with
  | none => simp
  | some content => cases hread : RunMeta.read s content <;> simp [hread]

/-- Making the directory of a slug keeps each run exactly if none is found in
the archive for it. -/
theorem getRun_makeDir {d : Disk} :
    (∀ s, (d.perform (.makeDir slug)).getRun s = d.getRun s) ↔
      (d.active slug).isSome ∨ ∀ dir, d.archive slug = some dir → dir.content = none := by
  have hmade : (d.perform (.makeDir slug)).getRun slug =
      Disk.readMeta slug ((d.active slug).getD {}) := by
    simp [Disk.getRun, Disk.perform]
  constructor
  · intro h
    have hslug := hmade.symm.trans (h slug)
    rw [Disk.getRun] at hslug
    cases hactive : d.active slug with
    | some dir => exact Or.inl rfl
    | none =>
        right
        intro dir hdir
        rw [hactive, hdir] at hslug
        exact readMeta_eq_none.mp hslug.symm
  · intro h s
    by_cases hs : s = slug
    · subst hs
      rw [hmade, Disk.getRun]
      cases hactive : d.active s with
      | some dir => rfl
      | none =>
          cases harchive : d.archive s with
          | none => rfl
          | some dir =>
              have hcontent : dir.content = none := by
                rcases h with h | h
                · rw [hactive] at h
                  cases h
                · exact h dir harchive
              exact (readMeta_eq_none.mpr hcontent).symm
    · simp [Disk.getRun, Disk.perform, hs]

theorem readRuns_makeDir (d : Disk) (dirs : List String) :
    AsyncEngine.readRuns (d.perform (.makeDir slug)) dirs =
      AsyncEngine.readRuns d (dirs.filter fun s => (d.active s).isSome) := by
  induction dirs with
  | nil => rfl
  | cons s dirs ih =>
      rw [AsyncEngine.readRuns, ih, List.filter_cons]
      by_cases hs : s = slug
      · subst hs
        cases hactive : d.active s with
        | none => simp [Disk.perform, hactive, Disk.readMeta]
        | some dir =>
            simp only [Disk.perform, hactive, Function.update_self, Option.getD_some,
              Option.isSome_some, if_true]
            rw [AsyncEngine.readRuns, hactive]
      · have hsame : (d.perform (.makeDir slug)).active s = d.active s := by
          simp [Disk.perform, hs]
        rw [hsame]
        cases hactive : d.active s with
        | none => simp
        | some dir =>
            simp only [Option.isSome_some, if_true]
            rw [AsyncEngine.readRuns, hactive]

theorem listAllRuns_makeDir (d : Disk) (dirs archived : List String) :
    listAllRuns (d.perform (.makeDir slug)) dirs archived =
      listAllRuns d (dirs.filter fun s => (d.active s).isSome) archived := by
  rw [listAllRuns, readRuns_makeDir]
  rfl

theorem get_init {d : EventDir} {n : Nat} {e : Event} :
    (EventStore.init d).get n = some e ↔
      n ∈ d.loadIndex.1 ∧ (d.files.lookup n).bind EventDir.parseEvent = some e := by
  have hfiles : (d.performAll d.loadIndex.2).files = d.files := by
    rw [EventDir.loadIndex]
    split <;> rfl
  rw [EventStore.get, EventStore.init, hfiles]
  simp only
  split
  · rename_i hmem
    simp [hmem]
  · rename_i hmem
    simp [hmem]

/-- The store returns what the active directory holds and nothing else. -/
theorem get_openStore {n : Nat} {e : Event} :
    (t.openStore slug).2.get n = some e ↔ ∃ g, t.active slug = some g ∧ g.Stores n e := by
  have hinit : (t.openStore slug).2 = EventStore.init (t.eventsDir slug) := rfl
  rw [hinit, get_init]
  have hindex : (t.eventsDir slug).loadIndex.1 =
      (((t.active slug).bind RunFolder.events).getD {}).loadIndex.1 := rfl
  have hfiles : (t.eventsDir slug).files =
      (((t.active slug).bind RunFolder.events).getD {}).files := rfl
  rw [hindex, hfiles]
  cases hactive : t.active slug with
  | none => simp [EventDir.loadIndex, EventDir.glob]
  | some g =>
      cases hevents : g.events with
      | none => simp [EventDir.loadIndex, EventDir.glob, hevents, RunFolder.Stores]
      | some d => simp [hevents, RunFolder.Stores]

/-- Opening the event store of a slug leaves every run as it was and returns
what was archived exactly if the directory it makes hides no archived run. -/
theorem undisturbed_iff_unhidden (t : Tree) (slug : String) :
    t.Undisturbed slug ↔ t.Unhidden slug := by
  have hruns : (∀ s, (t.openStore slug).1.disk.getRun s = t.disk.getRun s) ↔
      (t.active slug).isSome ∨ ∀ f, t.archive slug = some f → f.content = none := by
    rw [openStore_disk, getRun_makeDir, disk_active, disk_archive, Option.isSome_map]
    simp [RunFolder.dir]
  constructor
  · intro h
    refine ⟨hruns.mp h.run, ?_⟩
    intro f n e hf hstores
    exact get_openStore.mp (h.events f n e hf hstores)
  · intro h
    refine ⟨hruns.mpr h.run, ?_, ?_⟩
    · intro dirs archived
      rw [openStore_disk, listAllRuns_makeDir]
      simp only [disk_active, Option.isSome_map]
    · intro f n e hf hstores
      exact get_openStore.mpr (h.events f n e hf hstores)

/-- A run that has just been archived is hidden. -/
theorem moveToArchive_hidden {f : RunFolder} (hactive : t.active slug = some f)
    (hcontent : f.content.isSome) : ¬ (t.moveToArchive slug).Unhidden slug := by
  intro h
  have hnone : (t.moveToArchive slug).active slug = none := Function.update_self ..
  have hsome : (t.moveToArchive slug).archive slug = some f := by
    rw [← hactive]
    exact Function.update_self ..
  rcases h.run with hrun | hrun
  · rw [hnone] at hrun
    cases hrun
  · rw [hrun f hsome] at hcontent
    cases hcontent

end Tree

def essayAction : Event where
  runSlug := "essay"
  timestamp := (atMinute 1).isoformat
  eventType := EventType.userAction.value

def essayFolder : RunFolder where
  content := some (essayMeta "Essay" 1).write

def createdEssay : Tree where
  active := Function.update (fun _ => none) "essay" (some essayFolder)

def essayTree : Tree :=
  let opened := createdEssay.openStore "essay"
  opened.1.write "essay" opened.2 (opened.2.append { event := essayAction })

/-- The run and its event are found before it is archived, the run is found
after it, and neither is once an event store of it is opened. -/
theorem essay_hidden :
    essayTree.disk.getRun "essay" = .ok (some (essayMeta "Essay" 1)) ∧
      ((essayTree.openStore "essay").2.get 1).isSome ∧
      (essayTree.moveToArchive "essay").disk.getRun "essay" =
        .ok (some (essayMeta "Essay" 1)) ∧
      ((essayTree.moveToArchive "essay").openStore "essay").1.disk.getRun "essay" = .ok none ∧
      ((essayTree.moveToArchive "essay").openStore "essay").2.get 1 = none ∧
      ¬ (essayTree.moveToArchive "essay").Undisturbed "essay" := by
  refine ⟨by decide +kernel, by decide +kernel, by decide +kernel, by decide +kernel,
    by decide +kernel, ?_⟩
  rw [Tree.undisturbed_iff_unhidden]
  exact Tree.moveToArchive_hidden rfl rfl

end Prodinamik.Runs
