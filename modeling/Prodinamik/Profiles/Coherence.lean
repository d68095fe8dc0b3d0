import Prodinamik.Lib.Run
import Prodinamik.Profiles.ProfileRegistry

namespace Prodinamik.Profiles

open Lib Lib.StableSort

/-- Versions that sort alike as strings and as numbers, as far as the last one
is concerned. -/
def Aligned (versions : List String) : Prop := lastOf versions = newest versions

theorem newest_congr {vs ws : List String} (h : ∀ v, v ∈ vs ↔ v ∈ ws) : newest vs = newest ws := by
  refine Option.ext fun v => ?_
  rw [newest_iff, newest_iff, h v]
  simp only [h]

theorem lastOf_congr {vs ws : List String} (h : ∀ v, v ∈ vs ↔ v ∈ ws) : lastOf vs = lastOf ws := by
  refine Option.ext fun v => ?_
  rw [lastOf_iff, lastOf_iff, h v]
  simp only [h]

theorem newest_eq_none {vs : List String} : newest vs = none ↔ vs = [] := by
  rw [newest, List.getLast?_eq_none_iff, ← List.length_eq_zero_iff, List.length_insertionSort,
    List.length_insertionSort, List.length_eq_zero_iff]

theorem lastOf_eq_none {vs : List String} : lastOf vs = none ↔ vs = [] := by
  rw [lastOf, List.getLast?_eq_none_iff, ← List.length_eq_zero_iff, List.length_insertionSort,
    List.length_eq_zero_iff]

namespace ProfileDir

/-- Numeric versions with a profile.yaml that names the profile of its directory. -/
structure Tidy (d : ProfileDir) : Prop where
  numeric : ∀ v ∈ d.listed, (numbers v).isSome
  loads : ∀ v ∈ d.listed, ∃ m, d.load v = some m ∧ m.name = d.name
  plain : '@' ∉ d.name.toList

theorem mem_listed {d : ProfileDir} {v : String} :
    v ∈ d.listed ↔ ∃ y, d.versions.get v = some ⟨v, some y⟩ := by
  rw [listed, List.mem_map]
  constructor
  · rintro ⟨⟨w, yaml⟩, hmem, rfl⟩
    obtain ⟨hmem, hyaml⟩ := List.mem_filter.mp hmem
    obtain ⟨y, rfl⟩ := Option.isSome_iff_exists.mp hyaml
    exact ⟨y, Table.get_eq_some.mpr ⟨hmem, rfl⟩⟩
  · rintro ⟨y, hy⟩
    exact ⟨⟨v, some y⟩, List.mem_filter.mpr ⟨(Table.get_eq_some.mp hy).1, rfl⟩, rfl⟩

theorem listed_of_load {d : ProfileDir} {v : String} {m : ProfileMetadata} (h : d.load v = some m) :
    v ∈ d.listed := by
  obtain ⟨⟨w, yaml⟩, hget, hload⟩ := Option.bind_eq_some_iff.mp h
  have hw : w = v := Table.key_of_get hget
  subst hw
  rw [VersionDir.load] at hload
  split at hload
  · rename_i n hyaml
    exact mem_listed.mpr ⟨.holds n, by rw [hget]; exact congrArg _ (congrArg _ hyaml)⟩
  · cases hload

section Write

variable (d : ProfileDir) (v : String) (m : ProfileMetadata)

theorem mem_listed_write {w : String} : w ∈ (d.write v m).listed ↔ w = v ∨ w ∈ d.listed := by
  rw [mem_listed, mem_listed, write]
  simp only [Table.get_put]
  by_cases hw : w = v
  · simp [hw]
  · simp [hw]

theorem load_write (w : String) : (d.write v m).load w = if w = v then some m else d.load w := by
  rw [load, load, write]
  simp only [Table.get_put]
  split
  · rfl
  · rfl

theorem newest_write : newest (d.write v m).listed = some v ∨
    newest (d.write v m).listed = newest d.listed := by
  cases hnew : newest (d.write v m).listed with
  | none =>
      have hnil := newest_eq_none.mp hnew
      have hmem := (mem_listed_write d v m (w := v)).mpr (Or.inl rfl)
      rw [hnil] at hmem
      cases hmem
  | some u =>
      by_cases hu : u = v
      · exact Or.inl (by rw [hu])
      · obtain ⟨hmem, hall⟩ := newest_iff.mp hnew
        refine Or.inr (newest_iff.mpr ⟨?_, fun w hw => ?_⟩).symm
        · exact ((mem_listed_write d v m).mp hmem).resolve_left hu
        · exact hall w ((mem_listed_write d v m).mpr (Or.inr hw))

end Write

theorem Tidy.write {d : ProfileDir} (h : d.Tidy) {v : String} {m : ProfileMetadata}
    (hv : (numbers v).isSome) (hm : m.name = d.name) : (d.write v m).Tidy where
  numeric := by
    intro w hw
    rcases (mem_listed_write d v m).mp hw with rfl | hw
    · exact hv
    · exact h.numeric w hw
  loads := by
    intro w hw
    rw [load_write]
    split
    · exact ⟨m, rfl, hm⟩
    · rename_i hne
      exact h.loads w (((mem_listed_write d v m).mp hw).resolve_left hne)
  plain := h.plain

theorem Tidy.load_isSome {d : ProfileDir} (h : d.Tidy) {v : String} (hv : v ∈ d.listed) :
    (d.load v).isSome := by
  obtain ⟨m, hm, -⟩ := h.loads v hv
  rw [hm]
  rfl

end ProfileDir

namespace ProfileSource

/-- The source has a version of the profile. -/
def Has (source : ProfileSource) (name : String) : Prop :=
  ∃ d, source.dir name = some d ∧ d.listed ≠ []

/-- What is found in a source without an exception. -/
def found (name : String) (version : Option String) (source : ProfileSource) :
    Option ProfileMetadata :=
  (source.dir name).bind fun d =>
    match version with
    | some v => d.load v
    | none => (newest d.listed).bind d.load

def latestIn (name : String) (source : ProfileSource) : Option ProfileMetadata :=
  (source.dir name).bind ProfileDir.latest

def Tidy (source : ProfileSource) : Prop :=
  ∀ dirs, source.tree = some dirs → ∀ d ∈ dirs.rows, d.Tidy

theorem dir_name {source : ProfileSource} {name : String} {d : ProfileDir}
    (h : source.dir name = some d) : d.name = name := by
  obtain ⟨dirs, -, hget⟩ := Option.bind_eq_some_iff.mp h
  exact Table.key_of_get hget

theorem Tidy.dir {source : ProfileSource} (h : source.Tidy) {name : String} {d : ProfileDir}
    (hd : source.dir name = some d) : d.Tidy := by
  obtain ⟨dirs, htree, hget⟩ := Option.bind_eq_some_iff.mp hd
  exact h dirs htree d (Table.get_eq_some.mp hget).1

theorem findInSource_eq {source : ProfileSource} (h : source.Tidy) (name : String)
    (version : Option String) :
    source.findInSource name version = .ok (source.found name version) := by
  rw [findInSource, found]
  cases hd : source.dir name with
  | none => rfl
  | some d =>
      cases version with
      | some v => rfl
      | none =>
          simp only
          rw [newestOf, if_pos (h.dir hd).numeric]
          rfl

theorem found_eq_none {source : ProfileSource} (h : source.Tidy) {name : String} :
    source.found name none = none ↔ ¬ source.Has name := by
  rw [found, Has]
  cases hd : source.dir name with
  | none => simp
  | some d =>
      cases hnew : newest d.listed with
      | none => simp [newest_eq_none.mp hnew, newest_eq_none.mpr]
      | some v =>
          have hmem := (newest_iff.mp hnew).1
          have hload := (h.dir hd).load_isSome hmem
          simp [hnew, Option.isSome_iff_ne_none.mp hload, List.ne_nil_of_mem hmem]

theorem latestIn_eq_none {source : ProfileSource} (h : source.Tidy) {name : String} :
    source.latestIn name = none ↔ ¬ source.Has name := by
  rw [latestIn, Has]
  cases hd : source.dir name with
  | none => simp
  | some d =>
      cases hlast : lastOf d.listed with
      | none => simp [ProfileDir.latest, lastOf_eq_none.mp hlast, lastOf_eq_none.mpr]
      | some v =>
          have hmem := (lastOf_iff.mp hlast).1
          have hload := (h.dir hd).load_isSome hmem
          simp [ProfileDir.latest, hlast, Option.isSome_iff_ne_none.mp hload, List.ne_nil_of_mem hmem]

theorem found_some_eq_none {source : ProfileSource} {name : String} (h : ¬ source.Has name)
    (v : String) : source.found name (some v) = none := by
  rw [found]
  cases hd : source.dir name with
  | none => rfl
  | some d =>
      cases hload : d.load v with
      | none => exact hload
      | some m => exact absurd ⟨d, hd, List.ne_nil_of_mem (ProfileDir.listed_of_load hload)⟩ h

theorem has_of_found {source : ProfileSource} {name : String} {version : Option String}
    {m : ProfileMetadata} (h : source.found name version = some m) : source.Has name := by
  obtain ⟨d, hd, hload⟩ := Option.bind_eq_some_iff.mp h
  refine ⟨d, hd, ?_⟩
  cases version with
  | some v => exact List.ne_nil_of_mem (ProfileDir.listed_of_load hload)
  | none =>
      obtain ⟨v, hnew, -⟩ := Option.bind_eq_some_iff.mp hload
      exact List.ne_nil_of_mem (newest_iff.mp hnew).1

/-- What the list of a source has under a name. -/
theorem find?_latest {source : ProfileSource} (h : source.Tidy) (name : String) :
    source.latest.find? (fun m => m.name = name) = source.latestIn name := by
  rw [latest, latestIn, ProfileSource.dir]
  cases htree : source.tree with
  | none => rfl
  | some dirs =>
      have hnames : ∀ d ∈ dirs.rows, ∀ m, d.latest = some m → m.name = d.name := by
        intro d hd m hm
        obtain ⟨v, hlast, hload⟩ := Option.bind_eq_some_iff.mp hm
        obtain ⟨n, hn, hname⟩ := (h dirs htree d hd).loads v (lastOf_iff.mp hlast).1
        rw [hload] at hn
        rw [Option.some.inj hn, hname]
      have hnodup := dirs.nodup
      simp only [Option.bind_some, Table.get]
      generalize dirs.rows = rows at hnames hnodup
      induction rows with
      | nil => rfl
      | cons d rows ih =>
          obtain ⟨hnot, hnodup⟩ := List.nodup_cons.mp hnodup
          obtain ⟨hd, hrows⟩ := List.forall_mem_cons.mp hnames
          have hrest := ih hrows hnodup
          by_cases hname : d.name = name
          · rw [List.find?_cons_of_pos (by simpa using hname)]
            cases hlatest : d.latest with
            | none =>
                have hnone : rows.find? (fun d => decide (d.name = name)) = none := by
                  rw [List.find?_eq_none]
                  intro e he
                  have hne : e.name ≠ d.name := fun h => hnot (h ▸ List.mem_map_of_mem he)
                  simpa [← hname] using hne
                rw [List.filterMap_cons_none hlatest, hrest, hnone, Option.bind_some, hlatest]
                rfl
            | some m =>
                rw [List.filterMap_cons_some hlatest, List.find?_cons_of_pos, Option.bind_some, hlatest]
                simp [hd m hlatest, hname]
          · rw [List.find?_cons_of_neg (by simpa using hname), ← hrest]
            cases hlatest : d.latest with
            | none => rw [List.filterMap_cons_none hlatest]
            | some m =>
                rw [List.filterMap_cons_some hlatest, List.find?_cons_of_neg]
                simp [hd m hlatest, hname]

end ProfileSource

namespace ProfileRegistry

variable {r : ProfileRegistry}

/-- Of two sources one has the higher priority, and what stands in them is tidy. -/
structure Tidy (r : ProfileRegistry) : Prop where
  distinct : (r.sources.rows.map ProfileSource.priority).Nodup
  sources : ∀ source ∈ r.sources.rows, source.Tidy

/-- What a search gives that stops at the source of the highest priority with
an answer. -/
def Top (r : ProfileRegistry) (f : ProfileSource → Option ProfileMetadata) (m : ProfileMetadata) :
    Prop :=
  ∃ source ∈ r.sources.rows, f source = some m ∧
    ∀ other ∈ r.sources.rows, source.priority < other.priority → f other = none

theorem mem_inOrder {source : ProfileSource} : source ∈ r.inOrder ↔ source ∈ r.sources.rows :=
  List.mem_insertionSort _

theorem inOrder_pairwise (h : r.Tidy) : r.inOrder.Pairwise fun a b => b.priority < a.priority := by
  have hsort := List.pairwise_insertionSort
    (fun a b : ProfileSource => b.priority ≤ a.priority) r.sources.rows
  have hne : r.inOrder.Pairwise fun a b => a.priority ≠ b.priority := by
    have hperm : (r.inOrder.map ProfileSource.priority).Nodup :=
      ((List.perm_insertionSort _ _).map _).nodup_iff.mpr h.distinct
    exact List.pairwise_map.mp hperm
  exact (hsort.and hne).imp fun h => lt_of_le_of_ne h.1 h.2.symm

theorem findSome?_inOrder (h : r.Tidy) {f : ProfileSource → Option ProfileMetadata}
    {m : ProfileMetadata} : r.inOrder.findSome? f = some m ↔ r.Top f m := by
  have hpair := inOrder_pairwise h
  constructor
  · intro hfind
    obtain ⟨front, source, back, hsplit, hsource, hfront⟩ := List.findSome?_eq_some_iff.mp hfind
    have hmem : source ∈ r.inOrder := by simp [hsplit]
    refine ⟨source, mem_inOrder.mp hmem, hsource, fun other hother hlt => ?_⟩
    have hother := mem_inOrder.mpr hother
    rw [hsplit] at hother hpair
    have hback := (List.pairwise_cons.mp (List.pairwise_append.mp hpair).2.1).1
    rcases List.mem_append.mp hother with hother | hother
    · exact hfront other hother
    · rcases List.mem_cons.mp hother with rfl | hother
      · exact absurd hlt (lt_irrefl _)
      · exact absurd hlt (lt_asymm (hback other hother))
  · rintro ⟨source, hmem, hsource, hhigher⟩
    obtain ⟨front, back, hsplit⟩ := List.append_of_mem (mem_inOrder.mpr hmem)
    refine List.findSome?_eq_some_iff.mpr ⟨front, source, back, hsplit, hsource, fun other hother => ?_⟩
    have hin : other ∈ r.inOrder := by
      rw [hsplit]
      exact List.mem_append_left _ hother
    rw [hsplit] at hpair
    exact hhigher other (mem_inOrder.mp hin)
      ((List.pairwise_append.mp hpair).2.2 other hother source List.mem_cons_self)

theorem mapM_ok {α β ε : Type} {f : α → Except ε β} {g : α → β} {l : List α}
    (h : ∀ a ∈ l, f a = .ok (g a)) : l.mapM f = .ok (l.map g) := by
  induction l with
  | nil => rfl
  | cons a l ih =>
      obtain ⟨ha, hl⟩ := List.forall_mem_cons.mp h
      rw [List.mapM_cons, ha, ih hl]
      rfl

theorem lookup_eq (h : r.Tidy) (name : String) (version : Option String) :
    r.lookup name version = .ok (r.inOrder.findSome? (ProfileSource.found name version)) := by
  let g : ProfileSource → Option (Int × ProfileMetadata) := fun source =>
    (source.found name version).map fun m => (source.priority, m)
  have hfound : r.inOrder.mapM (candidate name version) = .ok (r.inOrder.map g) := by
    refine mapM_ok fun source hsource => ?_
    rw [candidate, ProfileSource.findInSource_eq (h.sources source (mem_inOrder.mp hsource))]
    rfl
  have hsorted : (r.inOrder.filterMap g).Pairwise fun a b => b.1 ≤ a.1 := by
    refine List.Pairwise.filterMap g ?_ (inOrder_pairwise h)
    intro a b hlt x hx y hy
    obtain ⟨m, -, rfl⟩ := Option.map_eq_some_iff.mp hx
    obtain ⟨n, -, rfl⟩ := Option.map_eq_some_iff.mp hy
    exact hlt.le
  have hhead : (r.inOrder.findSome? g).map Prod.snd =
      r.inOrder.findSome? (ProfileSource.found name version) := by
    rw [List.map_findSome?]
    congr 1
    funext source
    simp [g, Function.comp_def]
  rw [lookup, hfound]
  simp only [Except.map, List.filterMap_map, Function.id_comp]
  rw [hsorted.insertionSort_eq, List.head?_filterMap, hhead]

theorem lookup_iff (h : r.Tidy) {name : String} {version : Option String} {m : ProfileMetadata} :
    r.lookup name version = .ok (some m) ↔ r.Top (ProfileSource.found name version) m := by
  rw [lookup_eq h, ← findSome?_inOrder h]
  simp

theorem get_foldl_addUnseen (l : List ProfileMetadata) (seen : Table ProfileMetadata.name)
    (name : String) : (l.foldl addUnseen seen).get name =
      (seen.get name).or (l.find? fun m => m.name = name) := by
  induction l generalizing seen with
  | nil => simp
  | cons m l ih =>
      rw [List.foldl_cons, ih, addUnseen]
      by_cases hname : m.name = name
      · rw [List.find?_cons_of_pos (by simpa using hname)]
        split
        · rename_i hseen
          cases hget : seen.get name with
          | none => exact absurd (hname ▸ hseen) (Table.get_eq_none.mp hget)
          | some n => rfl
        · rename_i hseen
          rw [Table.get_put, if_pos hname.symm, Table.get_eq_none.mpr (hname ▸ hseen)]
          rfl
      · rw [List.find?_cons_of_neg (by simpa using hname)]
        split
        · rfl
        · rw [Table.get_put_of_ne (Ne.symm hname)]

theorem findSome?_congr {α β : Type} {f g : α → Option β} {l : List α} (h : ∀ a ∈ l, f a = g a) :
    l.findSome? f = l.findSome? g := by
  induction l with
  | nil => rfl
  | cons a l ih =>
      obtain ⟨ha, hl⟩ := List.forall_mem_cons.mp h
      rw [List.findSome?_cons, List.findSome?_cons, ha, ih hl]

theorem scan_iff (h : r.Tidy) {name : String} {m : ProfileMetadata} :
    r.scan.get name = some m ↔ r.Top (ProfileSource.latestIn name) m := by
  have hfind : r.scan.get name = r.inOrder.findSome? (ProfileSource.latestIn name) := by
    rw [scan, get_foldl_addUnseen, Table.get_empty, Option.none_or, List.find?_flatMap]
    refine findSome?_congr fun source hsource => ?_
    exact ProfileSource.find?_latest (h.sources source (mem_inOrder.mp hsource)) name
  rw [hfind, findSome?_inOrder h]

/-- The directory of the highest source that has the profile. -/
def View (r : ProfileRegistry) (name : String) (d : ProfileDir) : Prop :=
  ∃ source ∈ r.sources.rows, source.dir name = some d ∧ d.listed ≠ [] ∧
    ∀ other ∈ r.sources.rows, source.priority < other.priority → ¬ other.Has name

def Known (r : ProfileRegistry) (name : String) : Prop :=
  ∃ source ∈ r.sources.rows, source.Has name

/-- The metadata of the numerically greatest version in the source of the
highest priority that has the profile. -/
def IsLatest (r : ProfileRegistry) (name : String) (m : ProfileMetadata) : Prop :=
  ∃ d, r.View name d ∧ ∃ v ∈ d.listed, d.load v = some m ∧
    ∀ w ∈ d.listed, numericKey w ≤ numericKey v

/-- The list has exactly the known profiles, each with what resolve gives for
its name, and that is the latest version. -/
structure Coherent (r : ProfileRegistry) : Prop where
  known : ∀ m ∈ r.listProfiles.2, r.Known m.name
  agree : ∀ name, r.Known name → ∃ m, (r.resolve name none).2 = .ok (some m) ∧
    r.listProfiles.2.filter (fun p => p.name = name) = [m] ∧ r.IsLatest name m

/-- What the caches hold is what is found without them. -/
structure Inv (r : ProfileRegistry) : Prop where
  tidy : r.Tidy
  aligned : ∀ name d, r.View name d → Aligned d.listed
  cached : ∀ name version m, '@' ∉ name.toList → r.cache (cacheKey name version) = some m →
    r.lookup name version = .ok (some m)
  listed : r.profiles.rows = [] ∨ r.profiles = r.scan

theorem Tidy.plain (h : r.Tidy) {name : String} (hname : r.Known name) : '@' ∉ name.toList := by
  obtain ⟨source, hsource, d, hd, -⟩ := hname
  have hplain := ((h.sources source hsource).dir hd).plain
  rwa [ProfileSource.dir_name hd] at hplain

theorem Top.known {name : String} {version : Option String} {m : ProfileMetadata}
    (h : r.Top (ProfileSource.found name version) m) : r.Known name := by
  obtain ⟨source, hsource, hm, -⟩ := h
  exact ⟨source, hsource, ProfileSource.has_of_found hm⟩

/-- What is found without a version is the latest. -/
theorem Tidy.isLatest (h : r.Tidy) {name : String} {m : ProfileMetadata}
    (htop : r.Top (ProfileSource.found name none) m) : r.IsLatest name m := by
  obtain ⟨source, hsource, hm, hhigher⟩ := htop
  obtain ⟨d, hd, hload⟩ := Option.bind_eq_some_iff.mp hm
  obtain ⟨v, hnew, hload⟩ := Option.bind_eq_some_iff.mp hload
  obtain ⟨hmem, hall⟩ := newest_iff.mp hnew
  refine ⟨d, ⟨source, hsource, hd, List.ne_nil_of_mem hmem, ?_⟩, v, hmem, hload,
    fun w hw => (hall w hw).le⟩
  intro other hother hlt
  exact (ProfileSource.found_eq_none (h.sources other hother)).mp (hhigher other hother hlt)

theorem Tidy.exists_top (h : r.Tidy) {name : String} (hname : r.Known name) :
    ∃ m, r.Top (ProfileSource.found name none) m := by
  obtain ⟨source, hsource, hhas⟩ := hname
  have hsome : r.inOrder.findSome? (ProfileSource.found name none) ≠ none := by
    rw [Ne, List.findSome?_eq_none_iff]
    intro hall
    exact (ProfileSource.found_eq_none (h.sources source hsource)).mp
      (hall source (mem_inOrder.mpr hsource)) hhas
  obtain ⟨m, hm⟩ := Option.ne_none_iff_exists'.mp hsome
  exact ⟨m, (findSome?_inOrder h).mp hm⟩

/-- The list and resolve look at the same version of every profile. -/
theorem Inv.top_iff (h : Inv r) {name : String} {m : ProfileMetadata} :
    r.Top (ProfileSource.latestIn name) m ↔ r.Top (ProfileSource.found name none) m := by
  have hnone : ∀ other ∈ r.sources.rows, ProfileSource.latestIn name other = none ↔
      ProfileSource.found name none other = none := fun other hother =>
    (ProfileSource.latestIn_eq_none (h.tidy.sources other hother)).trans
      (ProfileSource.found_eq_none (h.tidy.sources other hother)).symm
  have hsame : ∀ source ∈ r.sources.rows,
      (∀ other ∈ r.sources.rows, source.priority < other.priority → ¬ other.Has name) →
      source.latestIn name = source.found name none := by
    intro source hsource hhigher
    cases hd : source.dir name with
    | none => rw [ProfileSource.latestIn, ProfileSource.found, hd]; rfl
    | some d =>
        rw [ProfileSource.latestIn, ProfileSource.found, hd]
        by_cases hnil : d.listed = []
        · simp [ProfileDir.latest, hnil, lastOf_eq_none.mpr, newest_eq_none.mpr]
        · have haligned := h.aligned name d ⟨source, hsource, hd, hnil, hhigher⟩
          rw [Option.bind_some, Option.bind_some, ProfileDir.latest, haligned]
  constructor
  · rintro ⟨source, hsource, hm, hhigher⟩
    have hno : ∀ other ∈ r.sources.rows, source.priority < other.priority → ¬ other.Has name :=
      fun other hother hlt => (ProfileSource.latestIn_eq_none (h.tidy.sources other hother)).mp
        (hhigher other hother hlt)
    rw [hsame source hsource hno] at hm
    exact ⟨source, hsource, hm, fun other hother hlt => (hnone other hother).mp (hhigher other hother hlt)⟩
  · rintro ⟨source, hsource, hm, hhigher⟩
    have hno : ∀ other ∈ r.sources.rows, source.priority < other.priority → ¬ other.Has name :=
      fun other hother hlt => (ProfileSource.found_eq_none (h.tidy.sources other hother)).mp
        (hhigher other hother hlt)
    rw [← hsame source hsource hno] at hm
    exact ⟨source, hsource, hm, fun other hother hlt => (hnone other hother).mpr (hhigher other hother hlt)⟩

theorem Inv.listProfiles_rows (h : Inv r) : r.listProfiles.2 = r.scan.rows := by
  rw [listProfiles]
  split
  · rfl
  · rename_i hne
    rw [h.listed.resolve_left hne]

theorem Inv.resolve_eq (h : Inv r) {name : String} {version : Option String}
    (hname : '@' ∉ name.toList) (hversion : version ≠ some "") :
    (r.resolve name version).2 = r.lookup name version := by
  have hfilter : version.filter (· ≠ "") = version := by
    cases version with
    | none => rfl
    | some v =>
        have hv : v ≠ "" := fun h => hversion (congrArg some h)
        simp [Option.filter, hv]
  rw [resolve, hfilter]
  cases hcache : r.cache (cacheKey name version) with
  | some m => exact (h.cached name version m hname hcache).symm
  | none =>
      cases hlookup : r.lookup name version with
      | error e => rfl
      | ok found => cases found <;> rfl

theorem Inv.coherent (h : Inv r) : r.Coherent where
  known := by
    intro m hm
    rw [h.listProfiles_rows] at hm
    exact (h.top_iff.mp ((scan_iff h.tidy).mp (Table.get_eq_some.mpr ⟨hm, rfl⟩))).known
  agree := by
    intro name hname
    obtain ⟨m, htop⟩ := h.tidy.exists_top hname
    refine ⟨m, ?_, ?_, h.tidy.isLatest htop⟩
    · rw [h.resolve_eq (h.tidy.plain hname) (by simp)]
      exact (lookup_iff h.tidy).mpr htop
    · rw [h.listProfiles_rows, Table.filter_rows, (scan_iff h.tidy).mpr (h.top_iff.mpr htop)]
      rfl

inductive Op
  | register (name version : String) (m : ProfileMetadata)
  | resolve (name : String) (version : Option String)
  | listProfiles

def step (r : ProfileRegistry) : Op → ProfileRegistry
  | .register name version m => (r.register name version m).1
  | .resolve name version => (r.resolve name version).1
  | .listProfiles => r.listProfiles.1

/-- A profile that was registered is found and listed, unless a source of
higher priority has its name. -/
def Registered (r : ProfileRegistry) : Op → Prop
  | .register name version m =>
      ∀ user dirs, r.sources.get "user" = some user → user.tree = some dirs → m.name = name →
        (∀ source ∈ r.sources.rows, user.priority < source.priority → ¬ source.Has name) →
        ((r.step (.register name version m)).resolve name (some version)).2 = .ok (some m) ∧
          ∃ p ∈ (r.step (.register name version m)).listProfiles.2, p.name = name
  | _ => True

/-- A source of higher priority than the user source has the profile. -/
def Shadowed (r : ProfileRegistry) (name : String) : Prop :=
  ∃ user, r.sources.get "user" = some user ∧
    ∃ source ∈ r.sources.rows, user.priority < source.priority ∧ source.Has name

/-- The versions that the user source has. -/
def userVersions (r : ProfileRegistry) (name : String) : List String :=
  match (r.sources.get "user").bind fun user => user.dir name with
  | none => []
  | some d => d.listed

/-- A numeric version of a profile without an at sign in its name is
registered under that name, while at most this name is in the list that is
kept. Unless a higher source has it, the versions of the user source sort
alike, and a resolution that is kept is of a later version or of these
metadata. -/
structure Fits (r : ProfileRegistry) (name version : String) (m : ProfileMetadata) : Prop where
  named : m.name = name
  plain : '@' ∉ name.toList
  numeric : (numbers version).isSome
  unlisted : ∀ p ∈ r.profiles.rows, p.name = name
  aligned : ¬ r.Shadowed name → Aligned (version :: r.userVersions name)
  unresolved : ¬ r.Shadowed name → r.cache name = none ∨ r.cache name = some m ∨
    ∃ w ∈ r.userVersions name, w ≠ version ∧ NotAfter numericKey version w

def Op.Allowed (r : ProfileRegistry) : Op → Prop
  | .register name version m => r.Fits name version m
  | _ => True

theorem Inv.of_listed (h : Inv r) {profiles : Table ProfileMetadata.name}
    (hprofiles : profiles.rows = [] ∨ profiles = r.scan) : Inv { r with profiles := profiles } where
  tidy := ⟨h.tidy.distinct, h.tidy.sources⟩
  aligned := h.aligned
  cached := h.cached
  listed := hprofiles

theorem Inv.listProfiles (h : Inv r) : Inv r.listProfiles.1 := by
  rw [ProfileRegistry.listProfiles]
  split
  · exact h.of_listed (Or.inr rfl)
  · exact h

/-- What stands behind the name in a key. -/
def keyTail : Option String → List Char
  | none => []
  | some version => '@' :: version.toList

theorem cacheKey_toList (name : String) (version : Option String) :
    (cacheKey name version).toList = name.toList ++ keyTail version := by
  cases version with
  | none => exact (List.append_nil _).symm
  | some v => simp [cacheKey, keyTail]

theorem takeWhile_cacheKey {name : String} (h : '@' ∉ name.toList) (version : Option String) :
    (cacheKey name version).toList.takeWhile (· ≠ '@') = name.toList := by
  have hname : ∀ c ∈ name.toList, decide (c ≠ '@') = true := by
    intro c hc
    exact decide_eq_true fun heq => h (heq ▸ hc)
  rw [cacheKey_toList, List.takeWhile_append_of_pos hname]
  cases version <;> simp [keyTail]

theorem cacheKey_inj {name name' : String} {version version' : Option String}
    (h : '@' ∉ name.toList) (h' : '@' ∉ name'.toList)
    (hkey : cacheKey name version = cacheKey name' version') : name = name' ∧ version = version' := by
  have hname : name = name' := by
    rw [← String.toList_inj, ← takeWhile_cacheKey h version, hkey, takeWhile_cacheKey h']
  refine ⟨hname, ?_⟩
  have htail := congrArg String.toList hkey
  rw [cacheKey_toList, cacheKey_toList, hname] at htail
  have htail := List.append_cancel_left htail
  cases version with
  | none =>
      cases version' with
      | none => rfl
      | some v => cases htail
  | some v =>
      cases version' with
      | none => cases htail
      | some v' => exact congrArg some (String.toList_inj.mp (List.cons.inj htail).2)

theorem Inv.resolve (h : Inv r) (name : String) (version : Option String) :
    Inv (r.resolve name version).1 := by
  rw [ProfileRegistry.resolve]
  generalize version.filter (· ≠ "") = version
  split
  · exact h
  · split
    · exact h
    · exact h.listProfiles
    · rename_i m hlookup
      have hplain := h.tidy.plain ((lookup_iff h.tidy).mp hlookup).known
      refine ⟨⟨h.tidy.distinct, h.tidy.sources⟩, h.aligned, ?_, h.listed⟩
      intro name' version' m' hname' hcache
      by_cases hkey : cacheKey name' version' = cacheKey name version
      · obtain ⟨rfl, rfl⟩ := cacheKey_inj hname' hplain hkey
        simp only [Function.update_self] at hcache
        rw [← hcache]
        exact hlookup
      · simp only [Function.update_of_ne hkey] at hcache
        exact h.cached name' version' m' hname' hcache

section Register

variable {user : ProfileSource} {dirs : Table ProfileDir.name} {name version : String}
  {m : ProfileMetadata}

def newSource (user : ProfileSource) (dirs : Table ProfileDir.name) (name version : String)
    (m : ProfileMetadata) : ProfileSource :=
  { user with tree := some (written dirs name version m) }

theorem oldDir_name : (oldDir dirs name).name = name := by
  rw [oldDir]
  cases hget : dirs.get name with
  | none => rfl
  | some d => exact Table.key_of_get hget

theorem register_eq (huser : r.sources.get "user" = some user) (htree : user.tree = some dirs) :
    (r.register name version m).1 =
      { sources := r.sources.put (newSource user dirs name version m)
        cache := Function.update r.cache (cacheKey name (some version)) none
        profiles := r.profiles.erase name } := by
  rw [register, huser]
  simp only [htree]
  rfl

theorem dir_eq (htree : user.tree = some dirs) (n : String) : user.dir n = dirs.get n := by
  rw [ProfileSource.dir, htree]
  rfl

theorem newSource_dir (htree : user.tree = some dirs) (n : String) :
    (newSource user dirs name version m).dir n =
      if n = name then some ((oldDir dirs name).write version m) else user.dir n := by
  have hkey : ((oldDir dirs name).write version m).name = name := oldDir_name
  rw [dir_eq htree, ProfileSource.dir]
  exact (Table.get_put dirs _ n).trans (by rw [hkey])

theorem userVersions_eq (huser : r.sources.get "user" = some user) (htree : user.tree = some dirs) :
    r.userVersions name = (oldDir dirs name).listed := by
  rw [userVersions, huser, Option.bind_some, dir_eq htree, oldDir]
  cases dirs.get name <;> rfl

theorem oldDir_tidy (h : user.Tidy) (htree : user.tree = some dirs) (hplain : '@' ∉ name.toList) :
    (oldDir dirs name).Tidy := by
  rw [oldDir]
  cases hget : dirs.get name with
  | none => exact ⟨fun _ hv => absurd hv List.not_mem_nil, fun _ hv => absurd hv List.not_mem_nil, hplain⟩
  | some d => exact h dirs htree d (Table.get_eq_some.mp hget).1

theorem found_newSource_of_ne (htree : user.tree = some dirs) {n : String} (hn : n ≠ name)
    (w : Option String) : (newSource user dirs name version m).found n w = user.found n w := by
  rw [ProfileSource.found, ProfileSource.found, newSource_dir htree, if_neg hn]

theorem found_oldDir (htree : user.tree = some dirs) (w : Option String) :
    user.found name w = match w with
      | some v => (oldDir dirs name).load v
      | none => (newest (oldDir dirs name).listed).bind (oldDir dirs name).load := by
  rw [ProfileSource.found, dir_eq htree, oldDir]
  cases dirs.get name with
  | none => cases w <;> rfl
  | some d => rfl

theorem found_newSource (htree : user.tree = some dirs) (w : String) :
    (newSource user dirs name version m).found name (some w) =
      if w = version then some m else user.found name (some w) := by
  rw [found_oldDir htree, ProfileSource.found, newSource_dir htree, if_pos rfl]
  exact ProfileDir.load_write _ _ _ w

/-- The new version is what is found in the source now, or what was found before. -/
theorem found_newSource_none (htree : user.tree = some dirs) :
    newest ((oldDir dirs name).write version m).listed = some version ∧
        (newSource user dirs name version m).found name none = some m ∨
      newest ((oldDir dirs name).write version m).listed ≠ some version ∧
        (newSource user dirs name version m).found name none = user.found name none := by
  have hnew : (newSource user dirs name version m).found name none =
      (newest ((oldDir dirs name).write version m).listed).bind
        ((oldDir dirs name).write version m).load := by
    rw [ProfileSource.found, newSource_dir htree, if_pos rfl]
    rfl
  by_cases hversion : newest ((oldDir dirs name).write version m).listed = some version
  · refine Or.inl ⟨hversion, ?_⟩
    rw [hnew, hversion, Option.bind_some, ProfileDir.load_write, if_pos rfl]
  · refine Or.inr ⟨hversion, ?_⟩
    have hsame := (ProfileDir.newest_write (oldDir dirs name) version m).resolve_left hversion
    rw [hnew, found_oldDir htree, hsame]
    cases hold : newest (oldDir dirs name).listed with
    | none => rfl
    | some v =>
        have hne : v ≠ version := by
          rintro rfl
          exact hversion (hsame.trans hold)
        rw [Option.bind_some, ProfileDir.load_write, if_neg hne]
        rfl

variable (huser : r.sources.get "user" = some user)

include huser

theorem mem_put_sources {source : ProfileSource} :
    source ∈ (r.sources.put (newSource user dirs name version m)).rows ↔
      source = newSource user dirs name version m ∨ source ∈ r.sources.rows ∧ source.name ≠ "user" := by
  have huser := Table.key_of_get huser
  have hname : (newSource user dirs name version m).name = "user" := huser
  rw [Table.mem_rows_put, hname]

theorem eq_user {source : ProfileSource} (hsource : source ∈ r.sources.rows)
    (hname : source.name = "user") : source = user := by
  have hget : r.sources.get "user" = some source := Table.get_eq_some.mpr ⟨hsource, hname⟩
  exact Option.some.inj (hget.symm.trans huser)

/-- A search that finds the same in the user source as before finds the same. -/
theorem Top.put {r' : ProfileRegistry} {f : ProfileSource → Option ProfileMetadata}
    {n : ProfileMetadata}
    (hsources : r'.sources = r.sources.put (newSource user dirs name version m))
    (hf : f (newSource user dirs name version m) = f user) (h : r.Top f n) : r'.Top f n := by
  obtain ⟨source, hsource, hn, hhigher⟩ := h
  have hmem : user ∈ r.sources.rows := (Table.get_eq_some.mp huser).1
  have hothers : ∀ other ∈ r'.sources.rows, source.priority < other.priority → f other = none := by
    intro other hother hlt
    rw [hsources, mem_put_sources huser] at hother
    rcases hother with rfl | ⟨hother, -⟩
    · rw [hf]
      exact hhigher user hmem hlt
    · exact hhigher other hother hlt
  by_cases hname : source.name = "user"
  · rw [eq_user huser hsource hname] at hn hothers
    refine ⟨newSource user dirs name version m, ?_, hf.trans hn, hothers⟩
    rw [hsources]
    exact (mem_put_sources huser).mpr (Or.inl rfl)
  · refine ⟨source, ?_, hn, hothers⟩
    rw [hsources]
    exact (mem_put_sources huser).mpr (Or.inr ⟨hsource, hname⟩)

/-- So does one that ends in a source of higher priority. -/
theorem Top.put_higher {r' : ProfileRegistry} {f : ProfileSource → Option ProfileMetadata}
    {n : ProfileMetadata}
    (hsources : r'.sources = r.sources.put (newSource user dirs name version m))
    {higher : ProfileSource} (hmem : higher ∈ r.sources.rows) (hlt : user.priority < higher.priority)
    (hf : f higher ≠ none) (h : r.Top f n) : r'.Top f n := by
  obtain ⟨source, hsource, hn, hhigher⟩ := h
  have habove : user.priority < source.priority := by
    by_contra hle
    exact hf (hhigher higher hmem (by omega))
  have hname : source.name ≠ "user" := by
    intro hname
    rw [eq_user huser hsource hname] at habove
    exact lt_irrefl _ habove
  refine ⟨source, ?_, hn, fun other hother hbelow => ?_⟩
  · rw [hsources]
    exact (mem_put_sources huser).mpr (Or.inr ⟨hsource, hname⟩)
  · rw [hsources, mem_put_sources huser] at hother
    rcases hother with rfl | ⟨hother, -⟩
    · exact absurd hbelow (lt_asymm habove)
    · exact hhigher other hother hbelow

/-- What the user source has is found where no source of higher priority has anything. -/
theorem top_new {r' : ProfileRegistry} {f : ProfileSource → Option ProfileMetadata}
    {n : ProfileMetadata}
    (hsources : r'.sources = r.sources.put (newSource user dirs name version m))
    (hf : f (newSource user dirs name version m) = some n)
    (hhigher : ∀ other ∈ r.sources.rows, user.priority < other.priority → f other = none) :
    r'.Top f n := by
  refine ⟨newSource user dirs name version m, ?_, hf, fun other hother hlt => ?_⟩
  · rw [hsources]
    exact (mem_put_sources huser).mpr (Or.inl rfl)
  · rw [hsources, mem_put_sources huser] at hother
    rcases hother with rfl | ⟨hother, -⟩
    · exact absurd hlt (lt_irrefl _)
    · exact hhigher other hother hlt

end Register

section Steps

variable {user : ProfileSource} {dirs : Table ProfileDir.name} {name version : String}
  {m : ProfileMetadata}

theorem Tidy.register (h : r.Tidy) (huser : r.sources.get "user" = some user)
    (htree : user.tree = some dirs) (hfits : r.Fits name version m) :
    Tidy (r.register name version m).1 := by
  have hmem : user ∈ r.sources.rows := (Table.get_eq_some.mp huser).1
  have hname := Table.key_of_get huser
  rw [register_eq huser htree]
  constructor
  · have hput : (newSource user dirs name version m).name ∈ r.sources.rows.map ProfileSource.name :=
      List.mem_map.mpr ⟨user, hmem, rfl⟩
    have hsame : (r.sources.put (newSource user dirs name version m)).rows.map ProfileSource.priority =
        r.sources.rows.map ProfileSource.priority := by
      rw [Table.rows_put_of_mem hput, Table.replace, List.map_map]
      refine List.map_congr_left fun source hsource => ?_
      simp only [Function.comp_apply]
      split
      · rename_i heq
        rw [eq_user huser hsource (heq.trans hname)]
        rfl
      · rfl
    rw [hsame]
    exact h.distinct
  · intro source hsource
    rcases (mem_put_sources huser).mp hsource with rfl | ⟨hsource, -⟩
    · rintro dirs' ⟨⟩ d hd
      rcases Table.mem_rows_put.mp hd with rfl | ⟨hd, -⟩
      · have hold := oldDir_tidy (h.sources user hmem) htree hfits.plain
        exact hold.write hfits.numeric (hfits.named.trans oldDir_name.symm)
      · exact h.sources user hmem dirs htree d hd
    · exact h.sources source hsource

/-- Where nothing of higher priority has the profile the new versions sort alike. -/
theorem Inv.aligned_register (h : Inv r) (huser : r.sources.get "user" = some user)
    (htree : user.tree = some dirs) (hfits : r.Fits name version m) {n : String} {d : ProfileDir}
    (hview : (r.register name version m).1.View n d) : Aligned d.listed := by
  have hmem : user ∈ r.sources.rows := (Table.get_eq_some.mp huser).1
  have hsources : (r.register name version m).1.sources =
      r.sources.put (newSource user dirs name version m) := by rw [register_eq huser htree]
  have htidy := h.tidy.register huser htree hfits
  obtain ⟨source, hsource, hd, hne, hhigher⟩ := hview
  rw [hsources] at hsource hhigher
  have hold : ∀ other ∈ r.sources.rows, other.name ≠ "user" → source.priority < other.priority →
      ¬ other.Has n := fun other hother hname hlt =>
    hhigher other ((mem_put_sources huser).mpr (Or.inr ⟨hother, hname⟩)) hlt
  have hself : newSource user dirs name version m ∈
      (r.sources.put (newSource user dirs name version m)).rows :=
    (mem_put_sources huser).mpr (Or.inl rfl)
  rcases (mem_put_sources huser).mp hsource with rfl | ⟨hin, hname⟩
  · have hbelow : ∀ other ∈ r.sources.rows, user.priority < other.priority → ¬ other.Has n := by
      intro other hother hlt
      refine hold other hother (fun hname => ?_) hlt
      rw [eq_user huser hother hname] at hlt
      exact lt_irrefl _ hlt
    rw [newSource_dir htree] at hd
    split at hd
    · rename_i hn
      subst hn
      have hshadowed : ¬ r.Shadowed n := by
        rintro ⟨u, hu, other, hother, hlt, hhas⟩
        rw [huser] at hu
        cases hu
        exact hbelow other hother hlt hhas
      have haligned := hfits.aligned hshadowed
      rw [userVersions_eq huser htree] at haligned
      rw [← Option.some.inj hd]
      have hsame : ∀ w, w ∈ ((oldDir dirs n).write version m).listed ↔
          w ∈ version :: (oldDir dirs n).listed := fun w => by
        rw [ProfileDir.mem_listed_write, List.mem_cons]
      rw [Aligned, lastOf_congr hsame, newest_congr hsame]
      exact haligned
    · exact h.aligned n d ⟨user, hmem, hd, hne, hbelow⟩
  · refine h.aligned n d ⟨source, hin, hd, hne, fun other hother hlt => ?_⟩
    by_cases huname : other.name = "user"
    · rw [eq_user huser hother huname] at hlt ⊢
      rintro ⟨d', hd', hne'⟩
      refine hhigher _ hself hlt ?_
      rw [ProfileSource.Has, newSource_dir htree]
      split
      · refine ⟨_, rfl, List.ne_nil_of_mem ((ProfileDir.mem_listed_write _ _ _).mpr (Or.inl rfl))⟩
      · exact ⟨d', hd', hne'⟩
    · exact hold other hother huname hlt

/-- What is kept of a profile is still what is found. -/
theorem Inv.cached_register (h : Inv r) (huser : r.sources.get "user" = some user)
    (htree : user.tree = some dirs) (hfits : r.Fits name version m) {n : String}
    {w : Option String} {k : ProfileMetadata} (hn : '@' ∉ n.toList)
    (hcache : (r.register name version m).1.cache (cacheKey n w) = some k) :
    (r.register name version m).1.Top (ProfileSource.found n w) k := by
  have hsources : (r.register name version m).1.sources =
      r.sources.put (newSource user dirs name version m) := by rw [register_eq huser htree]
  rw [register_eq huser htree] at hcache
  simp only at hcache
  have hkey : cacheKey n w ≠ cacheKey name (some version) := by
    intro heq
    rw [heq, Function.update_self] at hcache
    cases hcache
  rw [Function.update_of_ne hkey] at hcache
  have htop := (lookup_iff h.tidy).mp (h.cached n w k hn hcache)
  by_cases hname : n = name
  · subst hname
    cases w with
    | some v =>
        have hv : v ≠ version := fun heq => hkey (by rw [heq])
        refine htop.put huser hsources ?_
        rw [found_newSource htree, if_neg hv]
    | none =>
        by_cases hshadowed : r.Shadowed n
        · obtain ⟨u, hu, higher, hhigher, hlt, hhas⟩ := hshadowed
          rw [huser] at hu
          cases hu
          refine htop.put_higher huser hsources hhigher hlt ?_
          exact fun hnone => (ProfileSource.found_eq_none (h.tidy.sources _ hhigher)).mp hnone hhas
        · have hnew : newest ((oldDir dirs n).write version m).listed = some version ∧
              (newSource user dirs n version m).found n none = some m ∨
                newest ((oldDir dirs n).write version m).listed ≠ some version ∧
                  (newSource user dirs n version m).found n none = user.found n none :=
            found_newSource_none htree
          rcases hnew with ⟨hnewest, hfound⟩ | ⟨-, hfound⟩
          · rcases hfits.unresolved hshadowed with hnone | hsame | ⟨v, hv, hne, hafter⟩
            · rw [cacheKey, hnone] at hcache
              cases hcache
            · rw [cacheKey, hsame] at hcache
              cases hcache
              refine top_new huser hsources hfound fun other hother hlt => ?_
              exact (ProfileSource.found_eq_none (h.tidy.sources other hother)).mpr
                fun hhas => hshadowed ⟨user, huser, other, hother, hlt, hhas⟩
            · rw [userVersions_eq huser htree] at hv
              have hbefore := (newest_iff.mp hnewest).2 v
                ((ProfileDir.mem_listed_write _ _ _).mpr (Or.inr hv))
              exact absurd (hbefore.antisymm hafter) hne
          · exact htop.put huser hsources hfound
  · exact htop.put huser hsources (found_newSource_of_ne htree hname w)

theorem Inv.register (h : Inv r) (hfits : r.Fits name version m) :
    Inv (r.register name version m).1 := by
  cases huser : r.sources.get "user" with
  | none =>
      rw [ProfileRegistry.register, huser]
      exact h
  | some user =>
      cases htree : user.tree with
      | none =>
          rw [ProfileRegistry.register, huser]
          simp only [htree]
          exact h
      | some dirs =>
          have htidy := h.tidy.register huser htree hfits
          refine ⟨htidy, fun n d hview => h.aligned_register huser htree hfits hview, ?_, Or.inl ?_⟩
          · intro n w k hn hcache
            exact (lookup_iff htidy).mpr (h.cached_register huser htree hfits hn hcache)
          · rw [register_eq huser htree]
            refine List.filter_eq_nil_iff.mpr fun p hp => ?_
            simpa using hfits.unlisted p hp

theorem numbers_empty : numbers "" = none := by decide

theorem Inv.registered (h : Inv r) (hfits : r.Fits name version m) :
    r.Registered (.register name version m) := by
  intro user dirs huser htree _ hhigher
  have hnext := h.register hfits
  have hsources : (r.register name version m).1.sources =
      r.sources.put (newSource user dirs name version m) := by rw [register_eq huser htree]
  have htop : (r.register name version m).1.Top (ProfileSource.found name (some version)) m := by
    refine top_new huser hsources ?_ fun other hother hlt =>
      ProfileSource.found_some_eq_none (hhigher other hother hlt) version
    rw [found_newSource htree, if_pos rfl]
  have hversion : some version ≠ some "" := by
    rintro ⟨⟩
    have hnumeric := hfits.numeric
    rw [numbers_empty] at hnumeric
    cases hnumeric
  constructor
  · rw [step, hnext.resolve_eq hfits.plain hversion]
    exact (lookup_iff hnext.tidy).mpr htop
  · obtain ⟨p, -, hlist, -⟩ := hnext.coherent.agree name htop.known
    have hp : p ∈ (r.register name version m).1.listProfiles.2.filter fun p => p.name = name := by
      rw [hlist]
      exact List.mem_singleton_self p
    obtain ⟨hmem, hname⟩ := List.mem_filter.mp hp
    exact ⟨p, hmem, of_decide_eq_true hname⟩

theorem Inv.step (h : Inv r) {op : Op} (hop : op.Allowed r) : Inv (r.step op) ∧ r.Registered op := by
  cases op with
  | register name version m => exact ⟨h.register hop, h.registered hop⟩
  | resolve name version => exact ⟨h.resolve name version, trivial⟩
  | listProfiles => exact ⟨h.listProfiles, trivial⟩

end Steps

/-- A registry that has done nothing yet. -/
def fresh (sources : Table ProfileSource.name) : ProfileRegistry := { sources := sources }

theorem inv_fresh {sources : Table ProfileSource.name} (htidy : (fresh sources).Tidy)
    (haligned : ∀ name d, (fresh sources).View name d → Aligned d.listed) : Inv (fresh sources) where
  tidy := htidy
  aligned := haligned
  cached := by
    rintro name version m - hcache
    cases hcache
  listed := Or.inl rfl

/-- The registry stays coherent as long as no version is registered that the
sorts or the caches miss. -/
theorem coherent_always {sources : Table ProfileSource.name} (htidy : (fresh sources).Tidy)
    (haligned : ∀ name d, (fresh sources).View name d → Aligned d.listed) (ops : List Op)
    (hops : Run.Steps step (fun r op => op.Allowed r) (fresh sources) ops) :
    Run.Along step Coherent Registered (fresh sources) ops := by
  have hstep : ∀ (r : ProfileRegistry) (op : Op), Inv r → op.Allowed r → Inv (r.step op) :=
    fun r op h hop => (h.step hop).1
  have hrun := Run.along_of_invariant hstep (inv_fresh htidy haligned) hops
  exact hrun.imp (fun r h => h.coherent) fun r op h => (h.1.step h.2).2

/-- A user source without profiles and no other source. -/
def userOnly : Table ProfileSource.name := .put .empty ⟨"user", 100, some .empty⟩

def essay (version : String) : ProfileMetadata := { name := "essay", version := version }

def registerEssay (version : String) : Op := .register "essay" version (essay version)

theorem mem_userOnly {source : ProfileSource} (h : source ∈ (fresh userOnly).sources.rows) :
    source = ⟨"user", 100, some .empty⟩ := List.mem_singleton.mp h

theorem userOnly_dir {source : ProfileSource} (h : source ∈ (fresh userOnly).sources.rows)
    (name : String) : source.dir name = none := by
  rw [mem_userOnly h]
  rfl

theorem userOnly_tidy : (fresh userOnly).Tidy where
  distinct := by decide
  sources := by
    intro source hsource
    rw [mem_userOnly hsource]
    rintro dirs ⟨⟩ d hd
    cases hd

theorem userOnly_aligned (name : String) (d : ProfileDir) (h : (fresh userOnly).View name d) :
    Aligned d.listed := by
  obtain ⟨source, hsource, hd, -⟩ := h
  rw [userOnly_dir hsource] at hd
  cases hd

theorem coherent_always_essay : Run.Along step Coherent Registered (fresh userOnly)
    [registerEssay "1.9", .resolve "essay" (some "1.9"), registerEssay "2.0", .listProfiles] := by
  refine coherent_always userOnly_tidy userOnly_aligned _ ⟨trivial, ?_, trivial, trivial, trivial, ?_,
    trivial, trivial, trivial⟩
  · exact ⟨rfl, by decide, by decide, by decide, fun _ => rfl, fun _ => Or.inl rfl⟩
  · refine ⟨rfl, by decide, by decide, by decide, fun _ => ?_, fun _ => Or.inl rfl⟩
    show lastOf ["2.0", "1.9"] = newest ["2.0", "1.9"]
    decide +kernel

/-- Version 1.10 is listed as 1.9. -/
theorem not_coherent_essay : (fresh userOnly).Tidy ∧
    ¬ Run.Along step Coherent Registered (fresh userOnly) [registerEssay "1.9", registerEssay "1.10"] := by
  refine ⟨userOnly_tidy, fun halong => ?_⟩
  let r := [registerEssay "1.9", registerEssay "1.10"].foldl step (fresh userOnly)
  have hresolve : (r.resolve "essay" none).2 = .ok (some (essay "1.10")) := rfl
  have hlist : r.listProfiles.2 = [essay "1.9"] := by decide +kernel
  have hcoherent : r.Coherent := halong.last
  have hknown : r.Known "essay" := by
    have hmem : essay "1.9" ∈ r.listProfiles.2 := by rw [hlist]; exact List.mem_singleton_self _
    exact hcoherent.known _ hmem
  obtain ⟨m, hm, hfilter, -⟩ := hcoherent.agree "essay" hknown
  rw [hresolve] at hm
  have hversion := congrArg ProfileMetadata.version (Option.some.inj (Except.ok.inj hm))
  rw [hlist] at hfilter
  have hlisted := congrArg (List.map ProfileMetadata.version) hfilter
  rw [List.map_singleton, ← hversion] at hlisted
  exact absurd hlisted (by decide)

end ProfileRegistry

end Prodinamik.Profiles
