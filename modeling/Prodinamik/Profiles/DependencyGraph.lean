import Mathlib.Data.Set.Finite.Basic
import Prodinamik.Lib.DepthFirst
import Prodinamik.Profiles.Coherence

namespace Prodinamik.Profiles

open Lib Lib.Preorder

/-- Two versions of a profile that others depend on. -/
structure Conflict where
  dependency : String
  version1 : String
  version2 : String
  between : String × String
  deriving DecidableEq, Repr

/-- The graph that is built, the names that have been visited, and the registry with what it
has cached in the meantime. -/
structure Search where
  registry : ProfileRegistry
  nodes : Table (Prod.fst : String × String → String) := .empty
  edges : List (String × String) := []
  conflicts : List Conflict := []
  visited : List String := []

namespace Search

def see (s : Search) (r : ProfileRegistry) : Search := { s with registry := r }

def enter (s : Search) (name : String) : Search := { s with visited := s.visited ++ [name] }

def addNode (s : Search) (name version : String) : Search :=
  { s with nodes := s.nodes.put (name, version) }

/-- An edge, with the diamond conflict check. -/
def addEdge (s : Search) (name dependency version : String) : Search :=
  { s with
    edges := s.edges ++ [(name, dependency)]
    conflicts :=
      match s.nodes.get dependency with
      | none => s.conflicts
      | some (_, existing) =>
        if existing ≠ version then
          s.conflicts ++ [⟨dependency, existing, version, (name, dependency)⟩]
        else s.conflicts }

/-- What is done for one dependency of a profile; none is a recursion that has not ended. -/
def followDep (resolveDeps : Search → String → Option (Except Raised Search)) (name : String)
    (s : Search) (dependency : String) : Option (Except Raised Search) :=
  match s.registry.resolve dependency none with
  | (_, .error e) => some (.error e)
  | (r, .ok none) => some (.ok (s.see r))
  | (r, .ok (some m)) => resolveDeps ((s.see r).addEdge name dependency m.version) dependency

def followDeps (resolveDeps : Search → String → Option (Except Raised Search)) (name : String) :
    Search → List String → Option (Except Raised Search)
  | s, [] => some (.ok s)
  | s, d :: ds =>
    match followDep resolveDeps name s d with
    | some (.ok s') => followDeps resolveDeps name s' ds
    | other => other

def resolveDeps : Nat → Search → String → Option (Except Raised Search)
  | 0, _, _ => none
  | fuel + 1, s, name =>
    if name ∈ s.visited then some (.ok s)
    else
      match s.registry.resolve name none with
      | (_, .error e) => some (.error e)
      | (r, .ok none) => some (.ok ((s.enter name).see r))
      | (r, .ok (some m)) =>
          followDeps (resolveDeps fuel) name (((s.enter name).see r).addNode name m.version)
            m.dependencies

end Search

namespace ProfileRegistry

def dependencyGraph (fuel : Nat) (r : ProfileRegistry) (name : String) :
    Option (Except Raised Search) :=
  Search.resolveDeps fuel { registry := r } name

/-- What a name without a version is resolved to. -/
def answer (r : ProfileRegistry) (name : String) : Except Raised (Option ProfileMetadata) :=
  (r.resolve name none).2

def profile (r : ProfileRegistry) (name : String) : Option ProfileMetadata :=
  match r.answer name with
  | .ok m => m
  | .error _ => none

/-- The dependencies of a profile that are found. -/
def dependencies (r : ProfileRegistry) (name : String) : List String :=
  match r.profile name with
  | none => []
  | some m => m.dependencies.filter fun d => (r.profile d).isSome

def node (r : ProfileRegistry) (name : String) : Option (String × String) :=
  (r.profile name).map fun m => (name, m.version)

def edgesFrom (r : ProfileRegistry) (name : String) : List (String × String) :=
  (r.dependencies name).map fun d => (name, d)

/-- Neither the name nor a dependency of its profile has a directory that is no version. -/
structure Calm (r : ProfileRegistry) (name : String) : Prop where
  answer : ∀ e, r.answer name ≠ .error e
  dependencies : ∀ m, r.profile name = some m → ∀ d ∈ m.dependencies, ∀ e, r.answer d ≠ .error e

variable {r : ProfileRegistry}

theorem answer_eq (r : ProfileRegistry) (name : String) : r.answer name =
    match r.cache name with
    | some m => .ok (some m)
    | none => r.lookup name none := by
  have hkey : cacheKey name (Option.filter (· ≠ "") none) = name := rfl
  rw [answer, resolve, hkey]
  cases r.cache name with
  | some m => rfl
  | none =>
      dsimp only [Option.filter_none]
      cases r.lookup name none with
      | error e => rfl
      | ok m => cases m <;> rfl

/-- Only what is cached and the sources decide what a name is resolved to. -/
theorem answer_congr {r' : ProfileRegistry} (hcache : r'.cache = r.cache)
    (hsources : r'.sources = r.sources) (name : String) : r'.answer name = r.answer name := by
  have hlookup : r'.lookup name none = r.lookup name none := by
    rw [lookup, inOrder, hsources, ← inOrder, ← lookup]
  rw [answer_eq, answer_eq, hcache, hlookup]

/-- A name that is resolved does not change what any is resolved to. -/
theorem answer_resolve (name name' : String) :
    (r.resolve name none).1.answer name' = r.answer name' := by
  have hkey : cacheKey name (Option.filter (· ≠ "") none) = name := rfl
  rw [resolve, hkey]
  cases hcache : r.cache name with
  | some m => rfl
  | none =>
      dsimp only [Option.filter_none]
      cases hlookup : r.lookup name none with
      | error e => rfl
      | ok found =>
          cases found with
          | none =>
              dsimp only [listProfiles]
              split
              · exact @answer_congr r { r with profiles := r.scan } rfl rfl name'
              · rfl
          | some m =>
              by_cases hname : name' = name
              · subst hname
                rw [answer_eq, answer_eq, hcache, hlookup]
                simp
              · rw [answer_eq, answer_eq]
                have hlookup' : lookup { r with cache := Function.update r.cache name (some m) }
                    name' none = r.lookup name' none := rfl
                simp [hname, hlookup']

theorem profile_eq_some {name : String} {m : ProfileMetadata} :
    r.profile name = some m ↔ r.answer name = .ok (some m) := by
  rw [profile]
  cases r.answer name <;> simp

/-- A name from which a profile can be reached that is not calm. -/
def Fails (r : ProfileRegistry) (pending : List String) : Prop :=
  ∃ a ∈ pending, ∃ n, Reaches r.dependencies a n ∧ ¬ r.Calm n

theorem Fails.mono {pending more : List String} (h : r.Fails pending) (hsub : pending ⊆ more) :
    r.Fails more := by
  obtain ⟨a, ha, hn⟩ := h
  exact ⟨a, hsub ha, hn⟩

theorem Fails.enter {name : String} (h : r.Fails (r.dependencies name)) : r.Fails [name] := by
  obtain ⟨a, ha, n, hreach, hn⟩ := h
  exact ⟨name, List.mem_singleton_self _, n, .head ha hreach, hn⟩

end ProfileRegistry

namespace Search

open ProfileRegistry

/-- The registry answers as it did, and the nodes are the names visited that are found. -/
structure Faithful (r : ProfileRegistry) (s : Search) : Prop where
  answer : ∀ n, s.registry.answer n = r.answer n
  nodes : s.nodes.rows = s.visited.filterMap r.node
  conflicts : s.conflicts = []

/-- A search from some names, with the edges to them. -/
structure Went (r : ProfileRegistry) (s s' : Search) (pending : List String)
    (edges : List (String × String)) (fresh : List String) : Prop where
  visit : Visit r.dependencies s.visited pending fresh
  visited : s'.visited = s.visited ++ fresh
  edges : s'.edges.Perm (s.edges ++ edges ++ fresh.flatMap r.edgesFrom)
  calm : ∀ n ∈ fresh, r.Calm n
  faithful : Faithful r s'

variable {r : ProfileRegistry} {s s' s'' : Search} {name : String}

theorem Faithful.of_start (r : ProfileRegistry) : Faithful r { registry := r } where
  answer _ := rfl
  nodes := rfl
  conflicts := rfl

theorem Faithful.see (h : Faithful r s) (name : String) :
    Faithful r (s.see (s.registry.resolve name none).1) where
  answer n := (answer_resolve name n).trans (h.answer n)
  nodes := h.nodes
  conflicts := h.conflicts

/-- A name that is entered is a new node if it is found. -/
theorem Faithful.addNode (h : Faithful r s) (hname : name ∉ s.visited) {m : ProfileMetadata}
    (hm : r.profile name = some m) : Faithful r ((s.enter name).addNode name m.version) where
  answer := h.answer
  nodes := by
    have hkey : name ∉ s.nodes.rows.map Prod.fst := by
      rw [h.nodes]
      intro hmem
      obtain ⟨p, hp, rfl⟩ := List.mem_map.mp hmem
      obtain ⟨n, hn, hnode⟩ := List.mem_filterMap.mp hp
      obtain ⟨m, -, rfl⟩ := Option.map_eq_some_iff.mp hnode
      exact hname hn
    rw [Search.addNode, Search.enter]
    dsimp only
    rw [Table.rows_put_of_notMem hkey, h.nodes, List.filterMap_append]
    simp [node, hm]
  conflicts := h.conflicts

theorem Faithful.enter (h : Faithful r s) (hname : r.profile name = none) :
    Faithful r (s.enter name) where
  answer := h.answer
  nodes := by
    rw [Search.enter]
    dsimp only
    rw [h.nodes, List.filterMap_append]
    simp [node, hname]
  conflicts := h.conflicts

/-- The version that is compared is the one the node has. -/
theorem Faithful.addEdge (h : Faithful r s) {d : String} {m : ProfileMetadata}
    (hm : r.profile d = some m) : Faithful r (s.addEdge name d m.version) where
  answer := h.answer
  nodes := h.nodes
  conflicts := by
    rw [Search.addEdge]
    cases hget : s.nodes.get d with
    | none => exact h.conflicts
    | some p =>
        obtain ⟨hmem, rfl⟩ := Table.get_eq_some.mp hget
        rw [h.nodes] at hmem
        obtain ⟨n, -, hnode⟩ := List.mem_filterMap.mp hmem
        obtain ⟨m', hm', rfl⟩ := Option.map_eq_some_iff.mp hnode
        have heq : m' = m := Option.some.inj (hm'.symm.trans hm)
        simpa [heq] using h.conflicts

theorem Went.stay (h : Faithful r s) (hname : name ∈ s.visited) : Went r s s [name] [] [] where
  visit := .known hname .nil
  visited := by simp
  edges := by simp
  calm := by simp
  faithful := h

theorem Went.nil (h : Faithful r s) : Went r s s [] [] [] where
  visit := .nil
  visited := by simp
  edges := by simp
  calm := by simp
  faithful := h

/-- One search after the other. -/
theorem Went.append {pending pending' fresh fresh' : List String}
    {edges edges' : List (String × String)} (h : Went r s s' pending edges fresh)
    (h' : Went r s' s'' pending' edges' fresh') :
    Went r s s'' (pending ++ pending') (edges ++ edges') (fresh ++ fresh') where
  visit := h.visit.append (by simpa [h.visited] using h'.visit)
  visited := by rw [h'.visited, h.visited, List.append_assoc]
  edges := by
    refine (h'.edges.trans (((h.edges.append_right _).append_right _))).trans ?_
    simp only [List.flatMap_append, List.append_assoc]
    refine List.Perm.append_left _ (List.Perm.append_left _ ?_)
    rw [← List.append_assoc, ← List.append_assoc]
    exact List.perm_append_comm.append_right _
  calm := by
    intro n hn
    rcases List.mem_append.mp hn with hn | hn
    · exact h.calm n hn
    · exact h'.calm n hn
  faithful := h'.faithful

/-- The search for a single name ends while less than the fuel is left to visit. -/
def Meets (r : ProfileRegistry) (U : Finset String) (fuel : Nat)
    (search : Search → String → Option (Except Raised Search)) : Prop :=
  ∀ s name, Faithful r s → name ∈ U → (U \ s.visited.toFinset).card < fuel →
    (∃ s' fresh, search s name = some (.ok s') ∧ Went r s s' [name] [] fresh) ∨
      ∃ e, search s name = some (.error e) ∧ r.Fails [name]

section Follow

variable {U : Finset String} {fuel : Nat} {search : Search → String → Option (Except Raised Search)}

theorem card_visited {s s' : Search} {more : List String} (h : s'.visited = s.visited ++ more) :
    (U \ s'.visited.toFinset).card ≤ (U \ s.visited.toFinset).card := by
  refine Finset.card_le_card (Finset.sdiff_subset_sdiff (Finset.Subset.refl _) fun n hn => ?_)
  rw [List.mem_toFinset] at hn ⊢
  rw [h]
  exact List.mem_append_left _ hn

theorem followDep_of_found (hsearch : Meets r U fuel search)
    (hU : ∀ n, (r.profile n).isSome → n ∈ U) (h : Faithful r s)
    (hfuel : (U \ s.visited.toFinset).card < fuel) {d : String} {m : ProfileMetadata}
    (hd : r.profile d = some m) :
    (∃ s' fresh, followDep search name s d = some (.ok s') ∧
        Went r s s' [d] [(name, d)] fresh) ∨
      ∃ e, followDep search name s d = some (.error e) ∧ r.Fails [d] := by
  have hresolve : s.registry.resolve d none =
      ((s.registry.resolve d none).1, .ok (some m)) :=
    Prod.ext rfl ((h.answer d).trans (profile_eq_some.mp hd))
  have hstart := @Faithful.addEdge r _ name (h.see d) d m hd
  rw [followDep, hresolve]
  rcases hsearch _ d hstart (hU d (by simp [hd])) hfuel with ⟨s', fresh, hrun, hwent⟩ | hfails
  · refine .inl ⟨s', fresh, hrun, hwent.visit, hwent.visited, ?_, hwent.calm, hwent.faithful⟩
    simpa [Search.addEdge, Search.see] using hwent.edges
  · exact .inr hfails

/-- The dependencies of a profile are followed up to the first one that raises. -/
theorem followDeps_spec (hsearch : Meets r U fuel search)
    (hU : ∀ n, (r.profile n).isSome → n ∈ U) (ds : List String) (h : Faithful r s)
    (hfuel : (U \ s.visited.toFinset).card < fuel) :
    (∃ s' fresh, followDeps search name s ds = some (.ok s') ∧
        Went r s s' (ds.filter fun d => (r.profile d).isSome)
          ((ds.filter fun d => (r.profile d).isSome).map fun d => (name, d)) fresh ∧
        ∀ d ∈ ds, ∀ e, r.answer d ≠ .error e) ∨
      ∃ e, followDeps search name s ds = some (.error e) ∧
        (r.Fails (ds.filter fun d => (r.profile d).isSome) ∨
          ∃ d ∈ ds, ∃ e, r.answer d = .error e) := by
  induction ds generalizing s with
  | nil => exact .inl ⟨s, [], rfl, .nil h, by simp⟩
  | cons d ds ih =>
      have hresolve : s.registry.resolve d none = ((s.registry.resolve d none).1, r.answer d) :=
        Prod.ext rfl (h.answer d)
      cases hanswer : r.answer d with
      | error e =>
          refine .inr ⟨e, ?_, .inr ⟨d, List.mem_cons_self, e, hanswer⟩⟩
          rw [followDeps, followDep, hresolve, hanswer]
      | ok found =>
          cases found with
          | none =>
              have hnone : r.profile d = none := by rw [profile, hanswer]
              have hsee := h.see d
              rw [List.filter_cons_of_neg (by simp [hnone]), followDeps, followDep, hresolve, hanswer]
              rcases ih hsee hfuel with ⟨s', fresh, hrun, hwent, hquiet⟩ | ⟨e, hrun, hfails⟩
              · refine .inl ⟨s', fresh, hrun, ?_, ?_⟩
                · exact ⟨hwent.visit, hwent.visited, hwent.edges, hwent.calm, hwent.faithful⟩
                · exact List.forall_mem_cons.mpr ⟨by simp [hanswer], hquiet⟩
              · refine .inr ⟨e, hrun, hfails.imp_right ?_⟩
                exact fun ⟨d', hd', hraised⟩ => ⟨d', List.mem_cons_of_mem _ hd', hraised⟩
          | some m =>
              have hm : r.profile d = some m := profile_eq_some.mpr hanswer
              rw [List.filter_cons_of_pos (by simp [hm]), followDeps]
              rcases @followDep_of_found r s name U fuel search hsearch hU h hfuel d m hm with
                ⟨s₁, fresh₁, hrun₁, hwent₁⟩ | ⟨e, hrun₁, hfails⟩
              · rw [hrun₁]
                have hfuel₁ := (card_visited hwent₁.visited).trans_lt hfuel
                rcases ih hwent₁.faithful hfuel₁ with
                  ⟨s', fresh, hrun, hwent, hquiet⟩ | ⟨e, hrun, hfails⟩
                · refine .inl ⟨s', fresh₁ ++ fresh, hrun, hwent₁.append hwent, ?_⟩
                  exact List.forall_mem_cons.mpr ⟨by simp [hanswer], hquiet⟩
                · refine .inr ⟨e, hrun, ?_⟩
                  rcases hfails with hfails | ⟨d', hd', hraised⟩
                  · exact .inl (hfails.mono (List.subset_cons_self _ _))
                  · exact .inr ⟨d', List.mem_cons_of_mem _ hd', hraised⟩
              · rw [hrun₁]
                exact .inr ⟨e, rfl, .inl (hfails.mono (by simp))⟩

end Follow

/-- By induction on the fuel: every name that is entered leaves one less to visit. -/
theorem meets_resolveDeps {U : Finset String} (hU : ∀ n, (r.profile n).isSome → n ∈ U)
    (fuel : Nat) : Meets r U fuel (resolveDeps fuel) := by
  induction fuel with
  | zero => exact fun s name _ _ hfuel => absurd hfuel (Nat.not_lt_zero _)
  | succ fuel ih =>
      intro s name h hname hfuel
      rw [resolveDeps]
      by_cases hvisited : name ∈ s.visited
      · rw [if_pos hvisited]
        exact .inl ⟨s, [], rfl, .stay h hvisited⟩
      · have hresolve : s.registry.resolve name none =
            ((s.registry.resolve name none).1, r.answer name) := Prod.ext rfl (h.answer name)
        rw [if_neg hvisited, hresolve]
        cases hanswer : r.answer name with
        | error e =>
            refine .inr ⟨e, rfl, name, List.mem_singleton_self _, name, .refl, fun hcalm => ?_⟩
            exact hcalm.answer e hanswer
        | ok found =>
            cases found with
            | none =>
                have hnone : r.profile name = none := by rw [profile, hanswer]
                have hdeps : r.dependencies name = [] := by rw [dependencies, hnone]
                have hbelow : Visit r.dependencies (s.visited ++ [name]) (r.dependencies name) [] := by
                  rw [hdeps]
                  exact .nil
                refine .inl ⟨_, [name], rfl, .enter hvisited hbelow .nil, rfl, ?_, ?_, ?_⟩
                · simp [Search.see, Search.enter, edgesFrom, hdeps]
                · rintro n hn
                  rw [List.mem_singleton.mp hn]
                  exact ⟨by simp [hanswer], by simp [hnone]⟩
                · exact (h.see name).enter hnone
            | some m =>
                have hm : r.profile name = some m := profile_eq_some.mpr hanswer
                have hdeps : r.dependencies name =
                    m.dependencies.filter fun d => (r.profile d).isSome := by rw [dependencies, hm]
                have hentered := (h.see name).addNode hvisited hm
                have hless : (U \ (s.visited ++ [name]).toFinset).card < fuel := by
                  have := DepthFirst.card_entered hname hvisited
                  omega
                rcases @followDeps_spec r _ name U fuel _ ih hU m.dependencies hentered hless with
                  ⟨s', fresh, hrun, hwent, hquiet⟩ | ⟨e, hrun, hfails⟩
                · rw [← hdeps] at hwent
                  refine .inl ⟨s', name :: fresh, hrun, ?_, ?_, ?_, ?_, hwent.faithful⟩
                  · simpa using Visit.enter hvisited hwent.visit .nil
                  · rw [hwent.visited]
                    exact List.append_assoc _ _ _
                  · simpa [Search.addNode, Search.enter, Search.see, edgesFrom] using hwent.edges
                  · refine List.forall_mem_cons.mpr ⟨⟨by simp [hanswer], ?_⟩, hwent.calm⟩
                    intro m' hm'
                    rw [hm] at hm'
                    cases hm'
                    exact hquiet
                · refine .inr ⟨e, hrun, ?_⟩
                  rcases hfails with hfails | ⟨d, hd, e', hraised⟩
                  · rw [← hdeps] at hfails
                    exact hfails.enter
                  · refine ⟨name, List.mem_singleton_self _, name, .refl, fun hcalm => ?_⟩
                    exact hcalm.dependencies m hm d hd e' hraised

end Search

namespace ProfileRegistry

variable {r : ProfileRegistry}

/-- A name that is found has been cached, or a source has a directory for it. -/
theorem profile_known {n : String} (h : (r.profile n).isSome) :
    r.cache n ≠ none ∨ n ∈ r.sources.rows.flatMap fun source =>
      (source.tree.elim [] Table.rows).map ProfileDir.name := by
  by_contra hnot
  obtain ⟨hcache, hsources⟩ := not_or.mp hnot
  have hnone : ∀ source ∈ r.inOrder, candidate n none source = .ok none := by
    intro source hsource
    have hmem : source ∈ r.sources.rows := mem_inOrder.mp hsource
    have hdir : source.dir n = none := by
      rw [ProfileSource.dir]
      cases htree : source.tree with
      | none => rfl
      | some dirs =>
          refine Table.get_eq_none.mpr fun hn => hsources (List.mem_flatMap.mpr ⟨source, hmem, ?_⟩)
          rwa [htree]
    rw [candidate, ProfileSource.findInSource, hdir]
    rfl
  have hlookup : r.lookup n none = .ok none := by
    have hall : r.inOrder.mapM (candidate n none) = .ok (r.inOrder.map fun _ => none) :=
      mapM_ok hnone
    rw [lookup, hall]
    simp [Except.map]
  have hanswer : r.answer n = .ok none := by
    rw [answer_eq, not_not.mp hcache, hlookup]
  rw [profile, hanswer] at h
  cases h

/-- As much fuel as there are names that could be found is enough. -/
theorem exists_meets (hcache : {n | r.cache n ≠ none}.Finite) (name : String) :
    ∃ fuel₀, ∀ fuel, fuel₀ ≤ fuel → ∃ U : Finset String,
      name ∈ U ∧ U.card < fuel ∧ Search.Meets r U fuel (Search.resolveDeps fuel) := by
  let sources := (r.sources.rows.flatMap fun source =>
      (source.tree.elim [] Table.rows).map ProfileDir.name).toFinset
  let U := insert name (hcache.toFinset ∪ sources)
  have hU : ∀ n, (r.profile n).isSome → n ∈ U := by
    intro n hn
    refine Finset.mem_insert_of_mem (Finset.mem_union.mpr ?_)
    exact (profile_known hn).imp hcache.mem_toFinset.mpr List.mem_toFinset.mpr
  refine ⟨U.card + 1, fun fuel hfuel => ⟨U, Finset.mem_insert_self _ _, hfuel, ?_⟩⟩
  exact Search.meets_resolveDeps hU fuel

/-- A name that is not found leads nowhere, so the edges are those of the nodes. -/
theorem edges_of_nodes (names : List String) : names.flatMap r.edgesFrom =
    (names.filterMap r.node).flatMap fun p => r.edgesFrom p.1 := by
  induction names with
  | nil => rfl
  | cons n names ih =>
      rw [List.flatMap_cons, ih]
      cases hn : r.profile n with
      | none =>
          have hnode : r.node n = none := by rw [node, hn, Option.map_none]
          have hedges : r.edgesFrom n = [] := by rw [edgesFrom, dependencies, hn, List.map_nil]
          rw [List.filterMap_cons_none hnode, hedges, List.nil_append]
      | some m =>
          have hnode : r.node n = some (n, m.version) := by rw [node, hn, Option.map_some]
          rw [List.filterMap_cons_some hnode, List.flatMap_cons]

/-- Two profiles that depend on each other. -/
def circle : ProfileRegistry where
  sources := .empty
  cache := fun n =>
    if n = "site" then some { name := "site", version := "1.0.0", dependencies := ["theme", "fonts"] }
    else if n = "theme" then some { name := "theme", version := "2.0.0", dependencies := ["site"] }
    else none

end ProfileRegistry

end Prodinamik.Profiles
