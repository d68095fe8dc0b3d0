import Prodinamik.Lib.Rounding
import Prodinamik.Runs.Crash
import Prodinamik.Runs.Engine

namespace Prodinamik.Runs

open Machine Lib Lib.Text AsyncEngine

/-- The name of one directory. -/
structure DirName (name : String) : Prop where
  nonempty : name ≠ ""
  noSlash : '/' ∉ name.toList
  notHere : name ≠ "."
  notUp : name ≠ ".."

section Slugify

/-- re.sub of one or more characters of a class by a dash. -/
def dashes (p : Char → Bool) : Bool → List Char → List Char
  | _, [] => []
  | inside, c :: cs =>
      if p c then if inside then dashes p true cs else '-' :: dashes p true cs
      else c :: dashes p false cs

def isSlugChar (c : Char) : Bool :=
  ('a' ≤ c ∧ c ≤ 'z') ∨ ('0' ≤ c ∧ c ≤ '9') ∨ c = '-' ∨ c = '_' ∨ isSpace c

def stripDashes (s : List Char) : List Char := (s.rdropWhile (· = '-')).dropWhile (· = '-')

/-- str.lower is a parameter. -/
def slugify (lower : List Char → List Char) (now : DateTime) (text : String) : String :=
  let slug := strip (lower text.toList)
  let slug := slug.filter isSlugChar
  let slug := dashes (fun c => isSpace c || c = '_') false slug
  let slug := dashes (· = '-') false slug
  let slug := (stripDashes slug).take 80
  if slug = [] then String.ofList ("run-".toList ++ now.compactDate ++ now.compactTime)
  else String.ofList slug

theorem mem_dashes {p : Char → Bool} {inside : Bool} {s : List Char} {c : Char}
    (h : c ∈ dashes p inside s) : c = '-' ∨ c ∈ s ∧ p c = false := by
  induction s generalizing inside with
  | nil => cases h
  | cons d s ih =>
      rw [dashes] at h
      cases hp : p d with
      | true =>
          rw [hp, if_pos rfl] at h
          have hrest : c = '-' ∨ c ∈ dashes p true s := by
            cases inside with
            | true => exact Or.inr h
            | false => exact List.mem_cons.mp h
          rcases hrest with rfl | hrest
          · exact Or.inl rfl
          · exact (ih hrest).imp id fun hc => ⟨List.mem_cons_of_mem _ hc.1, hc.2⟩
      | false =>
          rw [hp, if_neg Bool.false_ne_true] at h
          rcases List.mem_cons.mp h with rfl | hrest
          · exact Or.inr ⟨List.mem_cons_self, hp⟩
          · exact (ih hrest).imp id fun hc => ⟨List.mem_cons_of_mem _ hc.1, hc.2⟩

theorem dirName_of_chars {s : List Char} (hne : s ≠ []) (hslash : '/' ∉ s) (hdot : '.' ∉ s) :
    DirName (String.ofList s) where
  nonempty := by
    intro h
    exact hne (by rw [← String.toList_ofList (l := s), h]; rfl)
  noSlash := by rwa [String.toList_ofList]
  notHere := by
    intro h
    have hs : s = ['.'] := by rw [← String.toList_ofList (l := s), h]; rfl
    exact hdot (by rw [hs]; exact List.mem_cons_self)
  notUp := by
    intro h
    have hs : s = ['.', '.'] := by rw [← String.toList_ofList (l := s), h]; rfl
    exact hdot (by rw [hs]; exact List.mem_cons_self)

theorem slug_chars {s : List Char} {c : Char}
    (h : c ∈ (stripDashes (dashes (· = '-') false (dashes (fun c => isSpace c || c = '_') false
      (s.filter isSlugChar)))).take 80) : isSlugChar c = true := by
  have hdash : isSlugChar '-' = true := by decide
  have hstrip := (List.dropWhile_suffix _).mem (List.mem_of_mem_take h)
  rcases mem_dashes ((List.rdropWhile_prefix _ _).mem hstrip) with rfl | ⟨hmem, -⟩
  · exact hdash
  · rcases mem_dashes hmem with rfl | ⟨hmem, -⟩
    · exact hdash
    · exact (List.mem_filter.mp hmem).2

/-- A slug that is made from a title names one directory. -/
theorem slugify_dirName (lower : List Char → List Char) (now : DateTime) (text : String) :
    DirName (slugify lower now text) := by
  rw [slugify]
  split
  · have hnone : ∀ c, c ∉ "run-".toList → (∀ k < 10, c ≠ k.digitChar) →
        c ∉ "run-".toList ++ now.compactDate ++ now.compactTime := by
      intro c hrun hdigit
      have hpad := Decimal.not_mem_pad hdigit
      simp only [List.mem_append, DateTime.compactDate, DateTime.compactTime, hrun, hpad, or_self,
        not_false_eq_true]
    exact dirName_of_chars (by simp) (hnone _ (by decide) (by decide))
      (hnone _ (by decide) (by decide))
  · rename_i hne
    refine dirName_of_chars hne ?_ ?_
    · intro hmem
      exact absurd (slug_chars hmem) (by decide)
    · intro hmem
      exact absurd (slug_chars hmem) (by decide)

end Slugify

/-- list_runs with the archived runs, whose directories are read as the active
ones are; the directories are listed in some order. -/
def listAllRuns (d : Disk) (dirs archived : List String) : Except String (List RunMeta) :=
  match readRuns d dirs with
  | .error e => .error e
  | .ok ms =>
      (readRuns { d with active := d.archive } archived).map fun ms' =>
        (ms ++ ms').insertionSort Later

/-- The runs of one slug: what create_run and update_state have written for the
active one, and for those that were archived, the last one first. -/
structure Shelf where
  active : Option RunMeta := none
  archived : List RunMeta := []

abbrev Catalogue := String → Shelf

section Catalogue

variable (digest : WalEntry → String)

def Catalogue.after (d : Disk) (c : Catalogue) : Op → Catalogue
  | .create title profile slug _ now walTime =>
    match createRun digest d title profile slug now walTime with
    | .ok (_, m) => Function.update c slug { c slug with active := some m }
    | .error _ => c
  | .update slug toState profile overrides now walTime =>
    match updateState digest d slug toState profile overrides now walTime with
    | .ok (_, m) => Function.update c slug { c slug with active := some m }
    | .error _ => c
  | .archive slug now entryTime walTime =>
    match archiveRun digest d slug now entryTime walTime with
    | .ok _ =>
        Function.update c slug ⟨none, (c slug).active.toList ++ (c slug).archived⟩
    | .error _ => c

/-- The disk and the catalogue after operations. -/
def catalogued (ops : List Op) : Disk × Catalogue :=
  ops.foldl (fun s op => (s.1.performAll (op.writes digest s.1), s.2.after digest s.1 op))
    ({}, fun _ => {})

theorem catalogued_fst (ops : List Op) : (catalogued digest ops).1 = runOps digest {} ops := by
  rw [catalogued, runOps]
  generalize ({} : Disk) = d
  generalize (fun _ => {} : Catalogue) = c
  induction ops generalizing d c with
  | nil => rfl
  | cons op ops ih => exact ih _ _

def dirOf (m : RunMeta) : RunDir := ⟨some m.write⟩

structure Counted (m : RunMeta) : Prop where
  version : ∃ n : Nat, m.version = n
  iterationCount : ∃ n : Nat, m.iterationCount = n

/-- The directories hold the active run of each slug and the one that was
archived last. -/
structure Holds (d : Disk) (c : Catalogue) : Prop where
  active : ∀ slug, d.active slug = (c slug).active.map dirOf
  archive : ∀ slug, d.archive slug = (c slug).archived.head?.map dirOf
  counted : ∀ slug m, m ∈ (c slug).active.toList ++ (c slug).archived → Counted m

variable {digest} {d : Disk} {c : Catalogue} {slug : String}

theorem createRun_dirs {title : String} {profile : ProductProfile} {now walTime : DateTime}
    {ws : List Write} {m : RunMeta}
    (h : createRun digest d title profile slug now walTime = .ok (ws, m)) :
    (d.performAll ws).active = Function.update d.active slug (some (dirOf m)) ∧
      (d.performAll ws).archive = d.archive ∧ Counted m := by
  rw [createRun] at h
  split at h
  · cases h
  · split at h
    · cases h
    · split at h
      · cases h
      · cases h
        refine ⟨?_, rfl, ⟨0, rfl⟩, ⟨0, rfl⟩⟩
        simp [Disk.performAll, Disk.perform, appendWal, updateSnapshot, dirOf]

theorem updateState_dirs {toState : String} {profile : Option ProductProfile}
    {overrides : List Override} {now walTime : DateTime} {ws : List Write} {m : RunMeta}
    (h : updateState digest d slug toState profile overrides now walTime = .ok (ws, m)) :
    (d.performAll ws).active = Function.update d.active slug (some (dirOf m)) ∧
      (d.performAll ws).archive = d.archive := by
  rw [updateState] at h
  cases hdir : d.active slug with
  | none =>
      rw [hdir] at h
      cases h
  | some dir =>
      rw [hdir] at h
      simp only at h
      split at h
      · cases h
      · cases h
      · split at h
        · cases h
        · cases h
          refine ⟨?_, rfl⟩
          simp [Disk.performAll, Disk.perform, appendWal, updateSnapshot, dirOf, hdir]

theorem updateState_counted {toState : String} {profile : Option ProductProfile}
    {overrides : List Override} {now walTime : DateTime} {ws : List Write} {m : RunMeta}
    (hold : Holds d c)
    (h : updateState digest d slug toState profile overrides now walTime = .ok (ws, m)) :
    Counted m := by
  rw [updateState, hold.active] at h
  cases hactive : (c slug).active with
  | none =>
      rw [hactive] at h
      cases h
  | some written =>
      have hcounted : Counted written := hold.counted slug written (by simp [hactive])
      obtain ⟨v, hv⟩ := hcounted.version
      obtain ⟨n, hn⟩ := hcounted.iterationCount
      obtain ⟨m', hread, hv', hn'⟩ := RunMeta.read_write_numbers hv hn slug
      rw [hactive] at h
      simp only [Option.map_some, Disk.readMeta, dirOf, hread] at h
      split at h
      · cases h
      · cases h
        refine ⟨⟨v + 1, ?_⟩, ?_⟩
        · simp only [RunMeta.leaving]
          split <;> simp [hv']
        · simp only [RunMeta.leaving]
          split
          · exact ⟨n + 1, by simp [hn']⟩
          · exact ⟨n, hn'⟩

theorem archiveRun_dirs {now entryTime walTime : DateTime} {ws : List Write}
    (h : archiveRun digest d slug now entryTime walTime = .ok ws) :
    (d.active slug).isSome ∧
      (d.performAll ws).active = Function.update d.active slug none ∧
      (d.performAll ws).archive = Function.update d.archive slug (d.active slug) := by
  rw [archiveRun] at h
  split at h
  · cases h
  · rename_i hsome
    cases h
    refine ⟨by simpa [Option.isSome_iff_ne_none] using hsome, ?_, ?_⟩
    · split <;> simp [Disk.performAll, Disk.perform, appendWal, updateSnapshot]
    · split <;> simp [Disk.performAll, Disk.perform, appendWal, updateSnapshot]

/-- The directories and the shelf of one slug have changed. -/
theorem Holds.put {d' : Disk} {active archive : Option RunDir} {shelf : Shelf} (h : Holds d c)
    (hactive : d'.active = Function.update d.active slug active)
    (harchive : d'.archive = Function.update d.archive slug archive)
    (ha : active = shelf.active.map dirOf) (hb : archive = shelf.archived.head?.map dirOf)
    (hcounted : ∀ m, m ∈ shelf.active.toList ++ shelf.archived → Counted m) :
    Holds d' (Function.update c slug shelf) where
  active := by
    intro s
    rw [hactive]
    by_cases hs : s = slug
    · subst hs
      rw [Function.update_self, Function.update_self, ha]
    · rw [Function.update_of_ne hs, Function.update_of_ne hs, h.active]
  archive := by
    intro s
    rw [harchive]
    by_cases hs : s = slug
    · subst hs
      rw [Function.update_self, Function.update_self, hb]
    · rw [Function.update_of_ne hs, Function.update_of_ne hs, h.archive]
  counted := by
    intro s m hm
    by_cases hs : s = slug
    · subst hs
      rw [Function.update_self] at hm
      exact hcounted m hm
    · rw [Function.update_of_ne hs] at hm
      exact h.counted s m hm

theorem Holds.written {d' : Disk} {m : RunMeta} (h : Holds d c)
    (hactive : d'.active = Function.update d.active slug (some (dirOf m)))
    (harchive : d'.archive = d.archive) (hm : Counted m) :
    Holds d' (Function.update c slug { c slug with active := some m }) := by
  have hsame : d'.archive = Function.update d.archive slug (d.archive slug) := by
    rw [harchive, Function.update_eq_self]
  refine h.put hactive hsame rfl (h.archive slug) ?_
  intro m' hm'
  rcases List.mem_append.mp hm' with hm' | hm'
  · rw [List.mem_singleton.mp hm']
    exact hm
  · exact h.counted slug m' (List.mem_append_right _ hm')

theorem Holds.step (h : Holds d c) (op : Op) :
    Holds (d.performAll (op.writes digest d)) (c.after digest d op) := by
  cases op with
  | create title profile slug named now walTime =>
      rw [Op.writes, Catalogue.after]
      cases hrun : createRun digest d title profile slug now walTime with
      | error e => exact h
      | ok r =>
          obtain ⟨hactive, harchive, hm⟩ := createRun_dirs hrun
          exact h.written hactive harchive hm
  | update slug toState profile overrides now walTime =>
      rw [Op.writes, Catalogue.after]
      cases hrun : updateState digest d slug toState profile overrides now walTime with
      | error e => exact h
      | ok r =>
          obtain ⟨hactive, harchive⟩ := updateState_dirs hrun
          exact h.written hactive harchive (updateState_counted h hrun)
  | archive slug now entryTime walTime =>
      rw [Op.writes, Catalogue.after]
      cases hrun : archiveRun digest d slug now entryTime walTime with
      | error e => exact h
      | ok ws =>
          obtain ⟨hsome, hactive, harchive⟩ := archiveRun_dirs hrun
          refine h.put hactive harchive rfl ?_ (h.counted slug)
          rw [h.active] at hsome ⊢
          obtain ⟨m, hm⟩ := Option.isSome_iff_exists.mp (Option.isSome_map ▸ hsome)
          rw [hm]
          rfl

theorem holds_catalogued (digest : WalEntry → String) (ops : List Op) :
    Holds (runOps digest {} ops) (catalogued digest ops).2 := by
  rw [← catalogued_fst, catalogued]
  have hstart : Holds {} (fun _ => {}) :=
    ⟨fun _ => rfl, fun _ => rfl, fun slug m hm => absurd hm List.not_mem_nil⟩
  generalize ({} : Disk) = d at hstart
  generalize (fun _ => {} : Catalogue) = c at hstart
  induction ops generalizing d c with
  | nil => exact hstart
  | cons op ops ih => exact ih _ _ (hstart.step op)

/-- The names of the directories, each once. -/
structure Listing (dirs : String → Option RunDir) (names : List String) : Prop where
  nodup : names.Nodup
  complete : ∀ slug, slug ∈ names ↔ (dirs slug).isSome

/-- The metadata that are read back from the file of a run. -/
def reread (slug : String) (m : RunMeta) : Option RunMeta := RunMeta.read slug m.write

theorem Counted.reread {m : RunMeta} (h : Counted m) (slug : String) :
    ∃ m', reread slug m = some m' := by
  obtain ⟨v, hv⟩ := h.version
  obtain ⟨n, hn⟩ := h.iterationCount
  obtain ⟨m', hread, -, -⟩ := RunMeta.read_write_numbers hv hn slug
  exact ⟨m', hread⟩

theorem readRuns_of_runs {runs : String → Option RunMeta}
    (hdirs : ∀ slug, d.active slug = (runs slug).map dirOf)
    (hcounted : ∀ slug m, runs slug = some m → Counted m) (slugs : List String) :
    readRuns d slugs = .ok (slugs.filterMap fun slug => (runs slug).bind (reread slug)) := by
  induction slugs with
  | nil => rfl
  | cons slug slugs ih =>
      rw [readRuns, hdirs]
      cases hrun : runs slug with
      | none =>
          rw [List.filterMap_cons, hrun]
          exact ih
      | some m =>
          obtain ⟨m', hread⟩ := (hcounted slug m hrun).reread slug
          have hmeta : Disk.readMeta slug (dirOf m) = .ok (some m') := by
            rw [reread] at hread
            simp only [Disk.readMeta, dirOf, hread]
          simp only [Option.map_some, hmeta]
          rw [ih, List.filterMap_cons, hrun, Option.bind_some, hread]
          rfl

/-- The runs of a slug that no run archived after them has replaced. -/
def Shelf.kept (s : Shelf) : List RunMeta := s.active.toList ++ s.archived.head?.toList

theorem runOps_append (digest : WalEntry → String) (ops : List Op) (op : Op) :
    runOps digest {} (ops ++ [op]) =
      (runOps digest {} ops).performAll (op.writes digest (runOps digest {} ops)) := by
  rw [runOps, List.foldl_append]
  rfl

/-- Only archiving the active run of a slug touches what was archived under it. -/
theorem writes_archive (digest : WalEntry → String) (d : Disk) (op : Op) (slug : String) :
    (d.performAll (op.writes digest d)).archive slug = d.archive slug ∨
      ∃ dir now entryTime walTime, op = .archive slug now entryTime walTime ∧
        d.active slug = some dir ∧ (d.performAll (op.writes digest d)).archive slug = some dir := by
  cases op with
  | create title profile s named now walTime =>
      left
      rw [Op.writes]
      cases hrun : createRun digest d title profile s now walTime with
      | error e => rfl
      | ok r => exact congrFun (createRun_dirs hrun).2.1 slug
  | update s toState profile overrides now walTime =>
      left
      rw [Op.writes]
      cases hrun : updateState digest d s toState profile overrides now walTime with
      | error e => rfl
      | ok r => exact congrFun (updateState_dirs hrun).2 slug
  | archive s now entryTime walTime =>
      rw [Op.writes]
      cases hrun : archiveRun digest d s now entryTime walTime with
      | error e => exact Or.inl rfl
      | ok ws =>
          obtain ⟨hsome, -, harchive⟩ := archiveRun_dirs hrun
          have hafter := congrFun harchive slug
          by_cases hs : slug = s
          · subst hs
            rw [Function.update_self] at hafter
            obtain ⟨dir, hdir⟩ := Option.isSome_iff_exists.mp hsome
            exact Or.inr ⟨dir, now, entryTime, walTime, rfl, hdir, hafter.trans hdir⟩
          · rw [Function.update_of_ne hs] at hafter
            exact Or.inl hafter

theorem listAllRuns_holds (h : Holds d c) (names archives : List String) :
    ∃ ms, listAllRuns d names archives = .ok ms ∧
      ms.Perm ((names.filterMap fun slug => (c slug).active.bind (reread slug)) ++
        archives.filterMap fun slug => (c slug).archived.head?.bind (reread slug)) := by
  have hactive := readRuns_of_runs h.active
    (fun slug m hm => h.counted slug m (by simp [hm])) names
  have harchive := readRuns_of_runs (d := { d with active := d.archive }) h.archive
    (fun slug m hm => h.counted slug m (List.mem_append_right _ (List.mem_of_mem_head? hm))) archives
  refine ⟨_, ?_, List.perm_insertionSort Later _⟩
  rw [listAllRuns, hactive]
  simp only
  rw [harchive]
  rfl

/-- What was archived stays until another run of its slug is archived and takes
its place; list_runs shows each active run and the run of each slug that was
archived last. -/
theorem archived_kept (digest : WalEntry → String) (ops : List Op) :
    (∀ op slug dir, (runOps digest {} ops).archive slug = some dir →
      (runOps digest {} (ops ++ [op])).archive slug = some dir ∨
        ∃ dir' now entryTime walTime, op = .archive slug now entryTime walTime ∧
          (runOps digest {} ops).active slug = some dir' ∧
          (runOps digest {} (ops ++ [op])).archive slug = some dir') ∧
    ∀ names archives, Listing (runOps digest {} ops).active names →
      Listing (runOps digest {} ops).archive archives →
        ∃ ms, listAllRuns (runOps digest {} ops) names archives = .ok ms ∧
          ms.Perm ((names.filterMap fun slug =>
              ((catalogued digest ops).2 slug).active.bind (reread slug)) ++
            archives.filterMap fun slug =>
              ((catalogued digest ops).2 slug).archived.head?.bind (reread slug)) ∧
          ∀ slug m, m ∈ ((catalogued digest ops).2 slug).kept →
            ∃ m', reread slug m = some m' ∧ m' ∈ ms := by
  constructor
  · intro op slug dir hdir
    rw [runOps_append]
    rcases writes_archive digest (runOps digest {} ops) op slug with hsame | htaken
    · exact Or.inl (hsame.trans hdir)
    · obtain ⟨dir', now, entryTime, walTime, hop, hactive, hafter⟩ := htaken
      exact Or.inr ⟨dir', now, entryTime, walTime, hop, hactive, hafter⟩
  · intro names archives hnames harchives
    have hholds := holds_catalogued digest ops
    obtain ⟨ms, hlist, hperm⟩ := listAllRuns_holds hholds names archives
    refine ⟨ms, hlist, hperm, ?_⟩
    intro slug m hm
    rw [Shelf.kept, List.mem_append, Option.mem_toList, Option.mem_toList] at hm
    have hcounted : Counted m := by
      refine hholds.counted slug m (List.mem_append.mpr (hm.imp ?_ ?_))
      · exact Option.mem_toList.mpr
      · exact fun hhead => List.mem_of_mem_head? hhead
    obtain ⟨m', hread⟩ := hcounted.reread slug
    refine ⟨m', hread, hperm.mem_iff.mpr (List.mem_append.mpr ?_)⟩
    rcases hm with hm | hm
    · refine Or.inl (List.mem_filterMap.mpr ⟨slug, (hnames.complete slug).mpr ?_, ?_⟩)
      · rw [hholds.active, Option.mem_def.mp hm]
        rfl
      · rw [Option.mem_def.mp hm, Option.bind_some, hread]
    · refine Or.inr (List.mem_filterMap.mpr ⟨slug, (harchives.complete slug).mpr ?_, ?_⟩)
      · rw [hholds.archive, Option.mem_def.mp hm]
        rfl
      · rw [Option.mem_def.mp hm, Option.bind_some, hread]

end Catalogue

theorem essay_named : "essay" ≠ "" := by decide

/-- create_run of an essay in the given minute. -/
def startEssay (title : String) (minute : Nat) : Op :=
  .create title articles "essay" essay_named (atMinute minute) (atMinute minute)

def archiveEssay (minute : Nat) : Op :=
  .archive "essay" (atMinute minute) (atMinute minute) (atMinute minute)

/-- The metadata of an essay that was created in the given minute. -/
def essayMeta (title : String) (minute : Nat) : RunMeta where
  slug := "essay"
  profile := "article"
  title := title
  createdAt := (atMinute minute).isoformat
  updatedAt := (atMinute minute).isoformat
  state := "draft"

theorem archived_kept_essay :
    ∃ ms, listAllRuns (runOps (fun _ => "") {} [startEssay "Essay" 1, archiveEssay 2]) [] ["essay"] =
      .ok ms ∧ ∃ m', reread "essay" (essayMeta "Essay" 1) = some m' ∧ m' ∈ ms := by
  have hactive : (runOps (fun _ => "") {} [startEssay "Essay" 1, archiveEssay 2]).active =
      Function.update (Function.update (Function.update (fun _ => none) "essay" (some {})) "essay"
        (some (dirOf (essayMeta "Essay" 1)))) "essay" none := rfl
  have harchive : (runOps (fun _ => "") {} [startEssay "Essay" 1, archiveEssay 2]).archive =
      Function.update (fun _ => none) "essay" (some (dirOf (essayMeta "Essay" 1))) := rfl
  have hnone : Listing (runOps (fun _ => "") {} [startEssay "Essay" 1, archiveEssay 2]).active [] := by
    refine ⟨List.nodup_nil, fun slug => ?_⟩
    rw [hactive, Function.update_idem, Function.update_idem]
    by_cases h : slug = "essay" <;> simp [h]
  have hone : Listing (runOps (fun _ => "") {} [startEssay "Essay" 1, archiveEssay 2]).archive
      ["essay"] := by
    refine ⟨List.nodup_singleton _, fun slug => ?_⟩
    rw [harchive]
    by_cases h : slug = "essay" <;> simp [h]
  obtain ⟨ms, hlist, -, hkept⟩ := (archived_kept (fun _ => "")
    [startEssay "Essay" 1, archiveEssay 2]).2 [] ["essay"] hnone hone
  exact ⟨ms, hlist, hkept "essay" (essayMeta "Essay" 1) (List.mem_singleton.mpr rfl)⟩

/-- Two titles with one slug: archiving the second run deletes the first. -/
theorem archived_replaced :
    slugify (List.map Char.toLower) default "Essay" = "essay" ∧
      slugify (List.map Char.toLower) default " ESSAY!" = "essay" ∧
      (runOps (fun _ => "") {} [startEssay "Essay" 1, archiveEssay 2, startEssay " ESSAY!" 3]).archive
        "essay" = some (dirOf (essayMeta "Essay" 1)) ∧
      (runOps (fun _ => "") {} [startEssay "Essay" 1, archiveEssay 2, startEssay " ESSAY!" 3,
        archiveEssay 4]).archive "essay" = some (dirOf (essayMeta " ESSAY!" 3)) ∧
      dirOf (essayMeta "Essay" 1) ≠ dirOf (essayMeta " ESSAY!" 3) := by
  exact ⟨by decide +kernel, by decide +kernel, by decide +kernel, by decide +kernel,
    by decide +kernel⟩

end Prodinamik.Runs
