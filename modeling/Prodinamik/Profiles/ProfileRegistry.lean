import Mathlib.Data.List.Lex
import Mathlib.Data.String.Basic
import Prodinamik.Lib.StableSort
import Prodinamik.Lib.Table
import Prodinamik.Lib.Text

namespace Prodinamik.Profiles

open Lib Lib.StableSort

structure ProfileMetadata where
  name : String
  version : String
  description : String := ""
  author : String := ""
  extended : Option String := none
  dependencies : List String := []
  maturity : String := "alpha"
  totalRuns : Int := 0
  successRate : Rat := 0
  knownIssues : List String := []
  deriving DecidableEq

/-- profile.yaml; what does not load is broken. -/
inductive Yaml
  | broken
  | holds (m : ProfileMetadata)
  deriving DecidableEq

structure VersionDir where
  version : String
  yaml : Option Yaml
  deriving DecidableEq

structure ProfileDir where
  name : String
  versions : Table VersionDir.version

/-- The tree is what stands under the path of the source, if it has one. -/
structure ProfileSource where
  name : String
  priority : Int
  tree : Option (Table ProfileDir.name)

structure ProfileRegistry where
  sources : Table ProfileSource.name
  cache : String → Option ProfileMetadata := fun _ => none
  profiles : Table ProfileMetadata.name := .empty

/-- A part of the version is no number. -/
inductive Raised
  | valueError
  deriving DecidableEq

/-- [int(x) for x in v.split(".")] -/
def numbers (v : String) : Option (List Int) := (Text.split ['.'] v.toList).mapM Text.parseInt

/-- The last version when they are sorted as strings. -/
def lastOf (versions : List String) : Option String :=
  (versions.insertionSort (· ≤ ·)).getLast?

def numericKey (v : String) : List Int := (numbers v).getD []

/-- The last version when they are sorted as strings and then as numbers. -/
def newest (versions : List String) : Option String :=
  ((versions.insertionSort (· ≤ ·)).insertionSort fun a b => numericKey a ≤ numericKey b).getLast?

/-- The key function of the second sort raises where a version is not numeric. -/
def newestOf (versions : List String) : Except Raised (Option String) :=
  if ∀ v ∈ versions, (numbers v).isSome then .ok (newest versions) else .error .valueError

def VersionDir.load (v : VersionDir) : Option ProfileMetadata :=
  match v.yaml with
  | some (.holds m) => some m
  | _ => none

namespace ProfileDir

def listed (d : ProfileDir) : List String :=
  (d.versions.rows.filter fun v => v.yaml.isSome).map VersionDir.version

def load (d : ProfileDir) (version : String) : Option ProfileMetadata :=
  (d.versions.get version).bind VersionDir.load

/-- What list_profiles reports for the directory. -/
def latest (d : ProfileDir) : Option ProfileMetadata := (lastOf d.listed).bind d.load

def write (d : ProfileDir) (version : String) (m : ProfileMetadata) : ProfileDir :=
  ⟨d.name, d.versions.put ⟨version, some (.holds m)⟩⟩

end ProfileDir

def ProfileSource.dir (source : ProfileSource) (name : String) : Option ProfileDir :=
  source.tree.bind fun dirs => dirs.get name

def ProfileSource.findInSource (source : ProfileSource) (name : String) (version : Option String) :
    Except Raised (Option ProfileMetadata) :=
  match source.dir name with
  | none => .ok none
  | some d =>
    match version with
    | some v => .ok (d.load v)
    | none => (newestOf d.listed).map fun newest => newest.bind d.load

def ProfileSource.latest (source : ProfileSource) : List ProfileMetadata :=
  match source.tree with
  | none => []
  | some dirs => dirs.rows.filterMap ProfileDir.latest

def cacheKey (name : String) : Option String → String
  | none => name
  | some version => name ++ "@" ++ version

namespace ProfileRegistry

def inOrder (r : ProfileRegistry) : List ProfileSource :=
  r.sources.rows.insertionSort fun a b => b.priority ≤ a.priority

def candidate (name : String) (version : Option String) (source : ProfileSource) :
    Except Raised (Option (Int × ProfileMetadata)) :=
  (source.findInSource name version).map fun m => m.map fun m => (source.priority, m)

def lookup (r : ProfileRegistry) (name : String) (version : Option String) :
    Except Raised (Option ProfileMetadata) :=
  (r.inOrder.mapM (candidate name version)).map fun found =>
    ((found.filterMap id).insertionSort fun a b => b.1 ≤ a.1).head?.map Prod.snd

def addUnseen (seen : Table ProfileMetadata.name) (m : ProfileMetadata) :
    Table ProfileMetadata.name :=
  if m.name ∈ seen.rows.map ProfileMetadata.name then seen else seen.put m

def scan (r : ProfileRegistry) : Table ProfileMetadata.name :=
  (r.inOrder.flatMap ProfileSource.latest).foldl addUnseen .empty

def listProfiles (r : ProfileRegistry) : ProfileRegistry × List ProfileMetadata :=
  if r.profiles.rows = [] then ({ r with profiles := r.scan }, r.scan.rows)
  else (r, r.profiles.rows)

/-- An empty version counts as none. A profile that is not found makes the
message list the others. -/
def resolve (r : ProfileRegistry) (name : String) (version : Option String) :
    ProfileRegistry × Except Raised (Option ProfileMetadata) :=
  let version := version.filter (· ≠ "")
  match r.cache (cacheKey name version) with
  | some m => (r, .ok (some m))
  | none =>
    match r.lookup name version with
    | .error e => (r, .error e)
    | .ok none => (r.listProfiles.1, .ok none)
    | .ok (some m) =>
        ({ r with cache := Function.update r.cache (cacheKey name version) (some m) }, .ok (some m))

/-- The directory of the profile, an empty one if it is new. -/
def oldDir (dirs : Table ProfileDir.name) (name : String) : ProfileDir :=
  (dirs.get name).getD ⟨name, .empty⟩

def written (dirs : Table ProfileDir.name) (name version : String) (m : ProfileMetadata) :
    Table ProfileDir.name :=
  dirs.put ((oldDir dirs name).write version m)

/-- False is the answer that the user source is not configured. -/
def register (r : ProfileRegistry) (name version : String) (m : ProfileMetadata) :
    ProfileRegistry × Bool :=
  match r.sources.get "user" with
  | none => (r, false)
  | some user =>
    match user.tree with
    | none => (r, false)
    | some dirs =>
        ({ sources := r.sources.put { user with tree := some (written dirs name version m) }
           cache := Function.update r.cache (cacheKey name (some version)) none
           profiles := r.profiles.erase name }, true)

end ProfileRegistry

/-! The two ways to sort versions. -/

theorem lastOf_iff {versions : List String} {v : String} :
    lastOf versions = some v ↔ v ∈ versions ∧ ∀ w ∈ versions, w ≤ v := by
  have hsort := List.pairwise_insertionSort (fun a b : String => a ≤ b) versions
  rw [lastOf, getLast?_iff (fun _ => le_rfl) (fun _ _ => le_antisymm) hsort]
  simp only [List.mem_insertionSort]

theorem newest_iff {versions : List String} {v : String} :
    newest versions = some v ↔ v ∈ versions ∧ ∀ w ∈ versions, NotAfter numericKey w v := by
  have hsort := StableSort.pairwise_insertionSort (f := numericKey)
    (List.pairwise_insertionSort (fun a b : String => a ≤ b) versions)
  rw [newest, getLast?_iff NotAfter.refl (fun _ _ => NotAfter.antisymm) hsort]
  simp only [List.mem_insertionSort]

end Prodinamik.Profiles
