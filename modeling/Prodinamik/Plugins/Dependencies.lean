import Mathlib.Data.Finset.Dedup
import Prodinamik.Lib.DepthFirst
import Prodinamik.Lib.Table
import Prodinamik.Plugins.PluginRegistry

namespace Prodinamik.Plugins

open Lib Lib.DepthFirst

/-- The manifests under their ids. -/
abbrev Manifests := Table (Prod.fst : String × PluginManifest → String)

/-- The variables that visit works on. -/
structure Resolution where
  visited : Finset String := ∅
  path : Finset String := ∅
  sortedIds : List String := []
  unresolved : List String := []

variable (plugins : Manifests) (arrange : Finset String → List String)

/-- The text goes through a set, in an order of its own. -/
def cycleDetected (path : Finset String) (pluginId : String) : String :=
  "Cycle detected: " ++ " → ".intercalate (arrange (insert pluginId path))

def missingDependency (pluginId : String) : String := "Missing dependency: " ++ pluginId

/-- The fuel bounds the depth of the recursion; there is no result if it is used up. -/
def visit : Nat → Resolution → String → Option Resolution
  | 0, _, _ => none
  | fuel + 1, r, pluginId =>
      if pluginId ∈ r.visited then some r
      else if pluginId ∈ r.path then
        some { r with unresolved := r.unresolved ++ [cycleDetected arrange r.path pluginId] }
      else
        match plugins.get pluginId with
        | none => some { r with unresolved := r.unresolved ++ [missingDependency pluginId] }
        | some (_, manifest) => do
            let r := { r with path := insert pluginId r.path }
            let r ← manifest.dependencies.foldlM (visit fuel) r
            return { r with
              path := r.path.erase pluginId
              visited := insert pluginId r.visited
              sortedIds := r.sortedIds ++ [pluginId] }

def resolveDependencies (fuel : Nat) : Option (List String × List String) := do
  let r ← (plugins.rows.map Prod.fst).foldlM (fun r pid =>
    if pid ∈ r.visited then some r else visit plugins arrange fuel { r with path := ∅ } pid) {}
  return (r.sortedIds, r.unresolved)

def dependencies (id : String) : Option (List String) :=
  (plugins.get id).map fun p => p.2.dependencies

def message : Event String → String
  | .loop path id => cycleDetected arrange path.toFinset id
  | .absent id => missingDependency id

/-- The variables between two visits of a search. -/
def Resolution.during (path done unresolved : List String) : Resolution :=
  ⟨done.toFinset, path.toFinset, done, unresolved⟩

theorem visit_known {done : List String} {id : String} (h : id ∈ done) (fuel : Nat)
    (path unresolved : List String) :
    visit plugins arrange (fuel + 1) (.during path done unresolved) id =
      some (.during path done unresolved) := by
  rw [visit, if_pos (by simpa [Resolution.during] using h)]

theorem visit_loop {path done : List String} {id : String} (hdone : id ∉ done) (hpath : id ∈ path)
    (fuel : Nat) (unresolved : List String) :
    visit plugins arrange (fuel + 1) (.during path done unresolved) id =
      some (.during path done (unresolved ++ [message arrange (.loop path id)])) := by
  rw [visit, if_neg (by simpa [Resolution.during] using hdone),
    if_pos (by simpa [Resolution.during] using hpath)]
  rfl

theorem visit_absent {path done : List String} {id : String} (hdone : id ∉ done)
    (hpath : id ∉ path) (hget : dependencies plugins id = none) (fuel : Nat)
    (unresolved : List String) :
    visit plugins arrange (fuel + 1) (.during path done unresolved) id =
      some (.during path done (unresolved ++ [message arrange (.absent id)])) := by
  rw [visit, if_neg (by simpa [Resolution.during] using hdone),
    if_neg (by simpa [Resolution.during] using hpath), Option.map_eq_none_iff.mp hget]
  rfl

theorem visit_enter {path done mid deps : List String} {id : String} (hdone : id ∉ done)
    (hpath : id ∉ path) (hget : dependencies plugins id = some deps) {fuel : Nat}
    {unresolved unresolved' : List String}
    (hbelow : deps.foldlM (visit plugins arrange fuel) (.during (path ++ [id]) done unresolved) =
      some (.during (path ++ [id]) mid unresolved')) :
    visit plugins arrange (fuel + 1) (.during path done unresolved) id =
      some (.during path (mid ++ [id]) unresolved') := by
  obtain ⟨⟨key, manifest⟩, hplugin, rfl⟩ := Option.map_eq_some_iff.mp hget
  have hinsert : insert id path.toFinset = (path ++ [id]).toFinset := by
    ext a
    simp
  have herase : (path ++ [id]).toFinset.erase id = path.toFinset := by
    rw [← hinsert]
    exact Finset.erase_insert (by simpa using hpath)
  rw [visit, if_neg (by simpa [Resolution.during] using hdone),
    if_neg (by simpa [Resolution.during] using hpath), hplugin]
  simp only [Resolution.during, hinsert] at hbelow ⊢
  rw [hbelow]
  simp only [herase, Option.bind_eq_bind, Option.bind_some]
  congr 2
  ext a
  simp

/-- The visits of a list of ids are a depth-first search. -/
theorem visits_eq {path pending done done' : List String} {events : List (Event String)}
    (h : Traverse (dependencies plugins) path pending done done' events) (fuel : Nat)
    (hfuel : ((plugins.rows.map Prod.fst).toFinset \ path.toFinset).card < fuel)
    (unresolved : List String) :
    pending.foldlM (visit plugins arrange fuel) (.during path done unresolved) =
      some (.during path done' (unresolved ++ events.map (message arrange))) := by
  induction h generalizing fuel unresolved with
  | nil => simp [List.foldlM_nil]
  | known hdone hrest ih =>
      obtain ⟨fuel, rfl⟩ := Nat.exists_eq_succ_of_ne_zero (Nat.ne_zero_of_lt hfuel)
      rw [List.foldlM_cons, visit_known plugins arrange hdone]
      exact ih _ hfuel unresolved
  | loop hdone hpath hrest ih =>
      obtain ⟨fuel, rfl⟩ := Nat.exists_eq_succ_of_ne_zero (Nat.ne_zero_of_lt hfuel)
      rw [List.foldlM_cons, visit_loop plugins arrange hdone hpath, List.map_cons,
        List.append_cons _ _ (List.map _ _)]
      exact ih _ hfuel _
  | absent hdone hpath hnext hrest ih =>
      obtain ⟨fuel, rfl⟩ := Nat.exists_eq_succ_of_ne_zero (Nat.ne_zero_of_lt hfuel)
      rw [List.foldlM_cons, visit_absent plugins arrange hdone hpath hnext, List.map_cons,
        List.append_cons _ _ (List.map _ _)]
      exact ih _ hfuel _
  | @enter _ _ _ _ _ _ id _ _ hdone hpath hnext hbelow hrest ihbelow ih =>
      obtain ⟨fuel, rfl⟩ := Nat.exists_eq_succ_of_ne_zero (Nat.ne_zero_of_lt hfuel)
      have hkey : id ∈ (plugins.rows.map Prod.fst).toFinset := by
        rw [List.mem_toFinset]
        by_contra hmem
        rw [dependencies, Table.get_eq_none.mpr hmem] at hnext
        cases hnext
      have hless := (card_entered hkey hpath).trans_le (Nat.le_of_lt_succ hfuel)
      rw [List.foldlM_cons, visit_enter plugins arrange hdone hpath hnext
        (ihbelow fuel hless unresolved), List.map_append, ← List.append_assoc]
      exact ih _ hfuel _

/-- One round of the loop over the map. -/
theorem round_eq {done : List String} {id : String} (fuel : Nat) (unresolved : List String) :
    (if id ∈ (Resolution.during [] done unresolved).visited then
        some (Resolution.during [] done unresolved)
      else visit plugins arrange (fuel + 1)
        { Resolution.during [] done unresolved with path := ∅ } id) =
      visit plugins arrange (fuel + 1) (.during [] done unresolved) id := by
  split
  case isTrue h =>
    refine (visit_known plugins arrange (?_ : id ∈ done) fuel [] unresolved).symm
    simpa [Resolution.during] using h
  case isFalse => rfl

theorem rounds_eq {roots done done' : List String} {events : List (Event String)}
    (h : Traverse (dependencies plugins) [] roots done done' events) (fuel : Nat)
    (hfuel : (plugins.rows.map Prod.fst).toFinset.card < fuel) (unresolved : List String) :
    roots.foldlM (fun r pid =>
      if pid ∈ r.visited then some r else visit plugins arrange fuel { r with path := ∅ } pid)
        (.during [] done unresolved) =
      some (.during [] done' (unresolved ++ events.map (message arrange))) := by
  obtain ⟨fuel, rfl⟩ := Nat.exists_eq_succ_of_ne_zero (Nat.ne_zero_of_lt hfuel)
  induction roots generalizing done events unresolved with
  | nil =>
      cases h
      simp [List.foldlM_nil]
  | cons id rest ih =>
      obtain ⟨mid, first, later, hfirst, hlater, rfl⟩ := h.cons_inv
      have hvisit := visits_eq plugins arrange hfirst (fuel + 1) (by simpa using hfuel) unresolved
      simp only [List.foldlM_cons, List.foldlM_nil, bind_pure] at hvisit
      rw [List.foldlM_cons, round_eq, hvisit, List.map_append, ← List.append_assoc]
      exact ih hlater _

theorem resolveDependencies_eq {order : List String} {events : List (Event String)}
    (h : Traverse (dependencies plugins) [] (plugins.rows.map Prod.fst) [] order events)
    {fuel : Nat} (hfuel : plugins.rows.length < fuel) :
    resolveDependencies plugins arrange fuel = some (order, events.map (message arrange)) := by
  have hcard : (plugins.rows.map Prod.fst).toFinset.card < fuel := by
    refine (List.toFinset_card_le _).trans_lt ?_
    rwa [List.length_map]
  have hrounds := rounds_eq plugins arrange h fuel hcard []
  rw [resolveDependencies]
  simp only [Resolution.during, List.toFinset_nil, List.nil_append] at hrounds
  rw [hrounds]
  rfl

theorem exists_search : ∃ order events,
    Traverse (dependencies plugins) [] (plugins.rows.map Prod.fst) [] order events := by
  let all := plugins.rows.map Prod.fst ++ plugins.rows.flatMap fun p => p.2.dependencies
  refine exists_traverse (U := all.toFinset) ?_ [] _ [] fun id hid => ?_
  · rintro a - b ⟨deps, hdeps, hb⟩
    obtain ⟨p, hp, rfl⟩ := Option.map_eq_some_iff.mp hdeps
    rw [List.mem_toFinset]
    exact List.mem_append_right _ (List.mem_flatMap.mpr ⟨p, (Table.get_eq_some.mp hp).1, hb⟩)
  · rw [List.mem_toFinset]
    exact List.mem_append_left _ hid

theorem dependencies_eq_none {id : String} :
    dependencies plugins id = none ↔ id ∉ plugins.rows.map Prod.fst := by
  rw [dependencies, Option.map_eq_none_iff, Table.get_eq_none]

/-- The order has every plugin once, with the dependencies first where there is
neither a cycle nor a missing one below; there are complaints exactly if some
plugin leads to one of the two. -/
theorem resolves_dependencies : ∃ order unresolved,
    (∀ fuel, plugins.rows.length < fuel →
      resolveDependencies plugins arrange fuel = some (order, unresolved)) ∧
    order.Perm (plugins.rows.map Prod.fst) ∧
    (∀ id ∈ order, ¬ Fails (dependencies plugins) id → Settled (dependencies plugins) order id) ∧
    (unresolved = [] ↔ ∀ id ∈ plugins.rows.map Prod.fst, ¬ Fails (dependencies plugins) id) := by
  obtain ⟨order, events, h⟩ := exists_search plugins
  refine ⟨order, events.map (message arrange),
    fun fuel hfuel => resolveDependencies_eq plugins arrange h hfuel, ?_,
    fun id hid hfails => h.settled_of_not_fails hid hfails, ?_⟩
  · have hnodup := h.nodup (fun a ha => absurd ha List.not_mem_nil) List.nodup_nil
    refine (List.perm_ext_iff_of_nodup hnodup plugins.nodup).mpr fun id => ?_
    constructor
    · intro hid
      by_contra hmem
      obtain hnil | ⟨hsome, -⟩ := h.reached id hid
      · cases hnil
      · exact hsome ((dependencies_eq_none plugins).mpr hmem)
    · intro hid
      obtain hmem | ⟨hnil | hnone, -⟩ := h.covers id hid
      · exact hmem
      · cases hnil
      · exact absurd hid ((dependencies_eq_none plugins).mp hnone)
  · rw [List.map_eq_nil_iff]
    exact h.events_eq_nil_iff

end Prodinamik.Plugins
