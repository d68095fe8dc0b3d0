import Mathlib.Data.List.Cycle
import Prodinamik.Lib.DepthFirst
import Prodinamik.Lib.PyList
import Prodinamik.Machine.Graph

namespace Prodinamik.Machine.Validate

open Relation Lib.DepthFirst

variable (config : StateMachineConfig)

def targets (node : String) : List String := (config.outgoing node).map (·.toState)

/-- The search through a list of nodes, however deep it goes. -/
inductive Explores : Search → List String → Search → Prop
  | nil {s : Search} : Explores s [] s
  | onPath {s s' : Search} {node : String} {rest : List String} (hpath : node ∈ s.path)
      (hrest : Explores (s.record (s.path.drop (s.path.idxOf node))) rest s') :
      Explores s (node :: rest) s'
  | visited {s s' : Search} {node : String} {rest : List String} (hpath : node ∉ s.path)
      (hvisited : node ∈ s.visited) (hrest : Explores s rest s') : Explores s (node :: rest) s'
  | enter {s below s' : Search} {node : String} {rest : List String} (hpath : node ∉ s.path)
      (hvisited : node ∉ s.visited)
      (hbelow : Explores { s with visited := node :: s.visited, path := s.path ++ [node] }
        (targets config node) below)
      (hrest : Explores { below with path := below.path.dropLast } rest s') :
      Explores s (node :: rest) s'

/-- A cycle of declared transitions on which no state comes twice. -/
structure SimpleCycle (cycle : List String) : Prop where
  nonempty : cycle ≠ []
  nodup : cycle.Nodup
  chain : Cycle.Chain config.Edge cycle

/-- A cycle that begins at the state where it comes first. -/
def Least (cycle : List String) : Prop := ∀ c, c.IsRotated cycle → cycle ≤ c

theorem canonical_isRotated (cycle : List String) : (canonical cycle).IsRotated cycle := by
  obtain hself | hmem := List.mem_cons.mp (Lib.PyList.foldl_min_mem cycle
    ((List.range cycle.length).map fun i => cycle.rotate i))
  · rw [canonical, hself]
  · obtain ⟨i, -, hi⟩ := List.mem_map.mp hmem
    exact List.IsRotated.symm ⟨i, hi⟩

theorem canonical_least (cycle : List String) : Least (canonical cycle) := by
  intro c hc
  refine Lib.PyList.foldl_min_le ?_
  obtain ⟨i, hi, rfl⟩ := List.isRotated_iff_mod.mp (hc.trans (canonical_isRotated cycle)).symm
  obtain hlt | heq := hi.lt_or_eq
  · exact List.mem_cons_of_mem _ (List.mem_map.mpr ⟨i, List.mem_range.mpr hlt, rfl⟩)
  · rw [heq, List.rotate_length]
    exact List.mem_cons_self

variable {config}

theorem SimpleCycle.canonical {cycle : List String} (h : SimpleCycle config cycle) :
    SimpleCycle config (canonical cycle) := by
  have hrot := canonical_isRotated cycle
  refine ⟨fun hnil => h.nonempty ?_, hrot.nodup_iff.mpr h.nodup, ?_⟩
  · rw [hnil] at hrot
    exact (List.isRotated_nil_iff'.mp hrot).symm
  · rw [Cycle.coe_eq_coe.mpr hrot]
    exact h.chain

/-- A simple path that comes back to one of its states ends in a simple cycle. -/
theorem simpleCycle_of_path {path : List String} {node : String} (hmem : node ∈ path)
    (hnodup : path.Nodup) (hchain : (path ++ [node]).IsChain config.Edge) :
    SimpleCycle config (path.drop (path.idxOf node)) := by
  obtain ⟨before, after, rfl⟩ := List.append_of_mem hmem
  have hout : node ∉ before := by
    intro hin
    exact (List.nodup_append.mp hnodup).2.2 node hin node List.mem_cons_self rfl
  have hdrop : (before ++ node :: after).drop ((before ++ node :: after).idxOf node) =
      node :: after := by
    rw [List.idxOf_append_of_notMem hout, List.idxOf_cons_self, Nat.add_zero, List.drop_left]
  rw [hdrop]
  refine ⟨List.cons_ne_nil _ _, (List.nodup_append.mp hnodup).2.1, ?_⟩
  rw [List.append_assoc, List.cons_append] at hchain
  exact (Cycle.chain_coe_cons ..).mpr (List.isChain_append.mp hchain).2.1

@[simp] theorem Search.record_path (s : Search) (cycle : List String) :
    (s.record cycle).path = s.path := by
  simp only [record]
  split
  · rfl
  · rfl

@[simp] theorem Search.record_visited (s : Search) (cycle : List String) :
    (s.record cycle).visited = s.visited := by
  simp only [record]
  split
  · rfl
  · rfl

theorem Search.record_cycles (s : Search) (cycle : List String) : (s.record cycle).cycles =
    if canonical cycle ∈ s.cycles.map fun known => known.take (canonical cycle).length then s.cycles
    else s.cycles ++ [canonical cycle] := by
  simp only [record]
  split
  · rfl
  · rfl

/-- A path that meets one of its states adds a cycle. -/
def collect (cycles : List (List String)) : Event String → List (List String)
  | .loop path node =>
      (Search.record { cycles := cycles } (path.drop (path.idxOf node))).cycles
  | .absent _ => cycles

theorem Explores.deterministic {s t t' : Search} {pending : List String}
    (h : Explores config s pending t) (h' : Explores config s pending t') : t = t' := by
  induction h generalizing t' with
  | nil =>
      cases h'
      rfl
  | onPath hpath _ ih =>
      cases h' with
      | onPath _ hrest => exact ih hrest
      | visited hout => exact absurd hpath hout
      | enter hout => exact absurd hpath hout
  | visited hpath hvisited _ ih =>
      cases h' with
      | onPath hin => exact absurd hin hpath
      | visited _ _ hrest => exact ih hrest
      | enter _ hout => exact absurd hvisited hout
  | enter hpath hvisited _ _ ihbelow ih =>
      cases h' with
      | onPath hin => exact absurd hin hpath
      | visited _ hin => exact absurd hin hvisited
      | enter _ _ hbelow hrest =>
          cases ihbelow hbelow
          exact ih hrest

theorem Explores.path_eq {s t : Search} {pending : List String} (h : Explores config s pending t) :
    t.path = s.path := by
  induction h with
  | nil => rfl
  | onPath _ _ ih => rw [ih, Search.record_path]
  | visited _ _ _ ih => exact ih
  | enter _ _ _ _ ihbelow ih => rw [ih, ihbelow, List.dropLast_concat]

theorem states_subset_nodes : ∀ a ∈ config.states.map Prod.fst, a ∈ nodes config :=
  fun _ ha => List.mem_append_left _ ha

theorem targets_subset_nodes (node : String) : ∀ a ∈ targets config node, a ∈ nodes config := by
  intro a ha
  obtain ⟨t, ht, rfl⟩ := List.mem_map.mp ha
  exact List.mem_append_right _ (List.mem_map_of_mem (List.mem_filter.mp ht).1)

theorem dfs_enter {s : Search} {node : String} (hpath : node ∉ s.path) (hvisited : node ∉ s.visited)
    {below : Search} {fuel : Nat}
    (hbelow : (targets config node).foldl (dfs config fuel)
      { s with visited := node :: s.visited, path := s.path ++ [node] } = below) :
    dfs config (fuel + 1) s node = { below with path := below.path.dropLast } := by
  rw [dfs, if_neg hpath, if_neg hvisited, ← hbelow]
  rfl

/-- With enough fuel dfs is the search that has no bound. -/
theorem Explores.foldl_dfs {s t : Search} {pending : List String} (h : Explores config s pending t)
    (hpending : ∀ a ∈ pending, a ∈ nodes config) (fuel : Nat)
    (hfuel : ((nodes config).toFinset \ s.path.toFinset).card < fuel) :
    pending.foldl (dfs config fuel) s = t := by
  induction h generalizing fuel with
  | nil => rfl
  | @onPath s t node rest hpath hrest ih =>
      obtain ⟨fuel, rfl⟩ := Nat.exists_eq_succ_of_ne_zero (Nat.ne_zero_of_lt hfuel)
      rw [List.foldl_cons, dfs, if_pos hpath]
      refine ih (fun a ha => hpending a (List.mem_cons_of_mem _ ha)) _ ?_
      rwa [Search.record_path]
  | @visited s t node rest hpath hvisited hrest ih =>
      obtain ⟨fuel, rfl⟩ := Nat.exists_eq_succ_of_ne_zero (Nat.ne_zero_of_lt hfuel)
      rw [List.foldl_cons, dfs, if_neg hpath, if_pos hvisited]
      exact ih (fun a ha => hpending a (List.mem_cons_of_mem _ ha)) _ hfuel
  | @enter s below t node rest hpath hvisited hbelow hrest ihbelow ih =>
      obtain ⟨fuel, rfl⟩ := Nat.exists_eq_succ_of_ne_zero (Nat.ne_zero_of_lt hfuel)
      have hnode : node ∈ (nodes config).toFinset :=
        List.mem_toFinset.mpr (hpending node List.mem_cons_self)
      have hless := (card_entered hnode hpath).trans_le (Nat.le_of_lt_succ hfuel)
      rw [List.foldl_cons,
        dfs_enter hpath hvisited (ihbelow (targets_subset_nodes node) fuel hless)]
      refine ih (fun a ha => hpending a (List.mem_cons_of_mem _ ha)) _ ?_
      rwa [hbelow.path_eq, List.dropLast_concat]

variable (config) in
def next (node : String) : Option (List String) := some (targets config node)

variable (config) in
theorem exists_search : ∃ order events,
    Traverse (next config) [] (config.states.map Prod.fst) [] order events := by
  refine exists_traverse (U := (nodes config).toFinset) ?_ [] _ [] fun a ha => ?_
  · rintro a - b ⟨_, ⟨⟩, hb⟩
    exact List.mem_toFinset.mpr (targets_subset_nodes a b hb)
  · exact List.mem_toFinset.mpr (states_subset_nodes a ha)

theorem edge_next : Edge (next config) = config.Edge := by
  funext a b
  refine propext ⟨?_, fun h => ⟨_, rfl, ?_⟩⟩
  · rintro ⟨_, ⟨⟩, hb⟩
    exact StateMachineConfig.edge_iff.mpr (List.mem_map.mp hb)
  · exact List.mem_map.mpr (StateMachineConfig.edge_iff.mp h)

theorem fails_next {a : String} :
    Fails (next config) a ↔ ∃ b, config.Path a b ∧ TransGen config.Edge b b := by
  simp only [Fails, Reaches, edge_next, next, reduceCtorEq, false_or]

/-- The variables between two nodes of a search. -/
structure During (s : Search) (path done : List String) : Prop where
  onPath : s.path = path
  seen : ∀ a, a ∈ s.visited ↔ a ∈ done ∨ a ∈ path

theorem During.enter {s : Search} {path done : List String} (h : During s path done)
    (node : String) :
    During { s with visited := node :: s.visited, path := s.path ++ [node] } (path ++ [node])
      done where
  onPath := congrArg (· ++ [node]) h.onPath
  seen a := by
    rw [List.mem_cons, h.seen, List.mem_append, List.mem_singleton]
    tauto

theorem During.leave {s : Search} {path done : List String} {node : String}
    (h : During s (path ++ [node]) done) :
    During { s with path := s.path.dropLast } path (done ++ [node]) where
  onPath := by rw [h.onPath, List.dropLast_concat]
  seen a := by
    rw [h.seen, List.mem_append, List.mem_append, List.mem_singleton]
    tauto

/-- The search of the source is a depth-first search. -/
theorem explores {path pending done done' : List String} {events : List (Event String)}
    (h : Traverse (next config) path pending done done' events) (hpath : ∀ a ∈ path, a ∉ done)
    {s : Search} (hs : During s path done) :
    ∃ t, Explores config s pending t ∧ During t path done' ∧
      t.cycles = events.foldl collect s.cycles := by
  induction h generalizing s with
  | nil => exact ⟨s, .nil, hs, rfl⟩
  | known hdone _ ih =>
      obtain ⟨t, ht, hduring, hcycles⟩ := ih hpath hs
      refine ⟨t, .visited ?_ ((hs.seen _).mpr (.inl hdone)) ht, hduring, hcycles⟩
      rw [hs.onPath]
      exact fun hin => hpath _ hin hdone
  | @loop path done _ _ node events _ hin _ ih =>
      have hrecord : During (s.record (s.path.drop (s.path.idxOf node))) path done :=
        ⟨(Search.record_path ..).trans hs.onPath, by simpa using hs.seen⟩
      obtain ⟨t, ht, hduring, hcycles⟩ := ih hpath hrecord
      refine ⟨t, .onPath (hs.onPath ▸ hin) ht, hduring, ?_⟩
      rw [hcycles, List.foldl_cons, collect, Search.record_cycles, Search.record_cycles, hs.onPath]
  | absent _ _ hnext _ _ => cases hnext
  | @enter path done mid _ _ _ node _ events hdone hout hnext hbelow _ ihbelow ih =>
      cases hnext
      obtain ⟨below, hexplores, hduring, hcycles⟩ :=
        ihbelow (notMem_entered hpath hdone) (hs.enter node)
      have hmid := hbelow.path_notMem (notMem_entered hpath hdone)
      obtain ⟨t, ht, hduring', hcycles'⟩ := ih (notMem_left hmid hout) hduring.leave
      refine ⟨t, .enter (hs.onPath ▸ hout) ?_ hexplores ht, hduring', ?_⟩
      · rw [hs.seen]
        exact not_or.mpr ⟨hdone, hout⟩
      · rw [hcycles', List.foldl_append]
        exact congrArg (fun cycles => events.foldl collect cycles) hcycles

theorem collect_loop (cycles : List (List String)) (path : List String) (node : String) :
    collect cycles (.loop path node) = cycles ∨
      canonical (path.drop (path.idxOf node)) ∉ cycles ∧
        collect cycles (.loop path node) = cycles ++ [canonical (path.drop (path.idxOf node))] := by
  rw [collect, Search.record_cycles]
  split
  case isTrue => exact .inl rfl
  case isFalse h =>
    refine .inr ⟨fun hmem => h ?_, rfl⟩
    exact List.mem_map.mpr ⟨_, hmem, List.take_length⟩

variable (config) in
/-- What holds of the cycles at every moment of the search. -/
structure Listed (cycles : List (List String)) : Prop where
  nodup : cycles.Nodup
  cycle : ∀ c ∈ cycles, SimpleCycle config c ∧ Least c

theorem Listed.collect {cycles : List (List String)} (h : Listed config cycles) {path : List String}
    {node : String} (hmem : node ∈ path) (hnodup : path.Nodup)
    (hchain : (path ++ [node]).IsChain config.Edge) :
    Listed config (collect cycles (.loop path node)) := by
  obtain heq | ⟨hnew, heq⟩ := collect_loop cycles path node
  · rw [heq]
    exact h
  · rw [heq]
    constructor
    · exact h.nodup.append (List.nodup_singleton _) (List.disjoint_singleton.mpr hnew)
    · intro c hc
      obtain hc | hc := List.mem_append.mp hc
      · exact h.cycle c hc
      · rw [List.mem_singleton.mp hc]
        exact ⟨(simpleCycle_of_path hmem hnodup hchain).canonical, canonical_least _⟩

theorem Listed.foldl {cycles : List (List String)} (h : Listed config cycles)
    {events : List (Event String)} (hevents : ∀ e ∈ events, ∃ path node, e = .loop path node ∧
      node ∈ path ∧ path.Nodup ∧ (path ++ [node]).IsChain config.Edge) :
    Listed config (events.foldl Validate.collect cycles) := by
  induction events generalizing cycles with
  | nil => exact h
  | cons e events ih =>
      obtain ⟨path, node, rfl, hmem, hnodup, hchain⟩ := hevents e List.mem_cons_self
      exact ih (h.collect hmem hnodup hchain) fun e he => hevents e (List.mem_cons_of_mem _ he)

theorem foldl_collect_ne_nil {cycles : List (List String)} (h : cycles ≠ [])
    (events : List (Event String)) : events.foldl collect cycles ≠ [] := by
  induction events generalizing cycles with
  | nil => exact h
  | cons e events ih =>
      refine ih ?_
      cases e with
      | absent node => exact h
      | loop path node =>
          obtain heq | ⟨-, heq⟩ := collect_loop cycles path node
          · rw [heq]
            exact h
          · rw [heq]
            exact List.append_ne_nil_of_left_ne_nil h _

variable (config) in
/-- The search ends; what it lists are simple cycles, each once and in the rotation that
comes first, and it lists none exactly if no declared state leads to a cycle. -/
theorem findCycles_decides :
    (∃ s, (∀ t, Explores config {} (config.states.map Prod.fst) t ↔ t = s) ∧
      s.cycles = findCycles config) ∧
    (findCycles config).Nodup ∧
    (∀ c ∈ findCycles config, SimpleCycle config c ∧ Least c) ∧
    (findCycles config = [] ↔ ∀ name ∈ config.states.map Prod.fst, ∀ a,
      config.Path name a → ¬ TransGen config.Edge a a) := by
  obtain ⟨order, events, h⟩ := exists_search config
  obtain ⟨s, hs, -, hcycles⟩ := explores h (fun a ha => absurd ha List.not_mem_nil) (s := {})
    ⟨rfl, by simp⟩
  have hfind : findCycles config = events.foldl collect [] := by
    rw [findCycles, hs.foldl_dfs states_subset_nodes _ ?_, hcycles]
    simpa using Nat.lt_succ_of_le (List.toFinset_card_le _)
  have hevents : ∀ e ∈ events, ∃ path node, e = .loop path node ∧
      node ∈ path ∧ path.Nodup ∧ (path ++ [node]).IsChain config.Edge := by
    intro e he
    cases e with
    | absent node => cases h.absents node he
    | loop path node =>
        have hloop := h.loops (leads_nil _) List.nodup_nil path node he
        rw [edge_next] at hloop
        exact ⟨path, node, rfl, hloop⟩
  have hlisted : Listed config (events.foldl collect []) :=
    Listed.foldl ⟨List.nodup_nil, by simp⟩ hevents
  rw [hfind]
  refine ⟨⟨s, fun t => ⟨fun ht => ht.deterministic hs, fun ht => ht ▸ hs⟩, hcycles⟩, hlisted.nodup,
    hlisted.cycle, ?_⟩
  have hnil : events.foldl collect [] = [] ↔ events = [] := by
    cases events with
    | nil => exact iff_of_true rfl rfl
    | cons e events =>
        refine iff_of_false (foldl_collect_ne_nil ?_ events) (List.cons_ne_nil _ _)
        obtain ⟨path, node, rfl, -⟩ := hevents e List.mem_cons_self
        rw [collect, Search.record_cycles, if_neg (by simp)]
        exact List.cons_ne_nil _ _
  rw [hnil, h.events_eq_nil_iff]
  simp only [fails_next, not_exists, not_and]

end Prodinamik.Machine.Validate
