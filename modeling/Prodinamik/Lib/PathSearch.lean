import Mathlib.Data.Finset.Card
import Mathlib.Logic.Relation

namespace Prodinamik.Lib.PathSearch

variable {α : Type} [DecidableEq α]

/-- Try the candidates in order until one of them yields a path. The visited
set of a failed attempt is the one the next attempt starts from. -/
def firstPath (attempt : α → Finset α → Option (List α) × Finset α) :
    List α → Finset α → Option (List α) × Finset α
  | [], visited => (none, visited)
  | a :: rest, visited =>
      match attempt a visited with
      | (some path, visited') => (some path, visited')
      | (none, visited') => firstPath attempt rest visited'

/-- Depth-first search with one visited set for the whole search. The fuel
bounds the depth of the recursion. -/
def search (next : α → List α) (goal : α) : Nat → α → Finset α → Option (List α) × Finset α
  | 0, _, visited => (none, visited)
  | fuel + 1, start, visited =>
      if start = goal then (some [goal], visited)
      else if start ∈ visited then (none, visited)
      else
        match firstPath (search next goal fuel) (next start) (insert start visited) with
        | (some path, visited') => (some (start :: path), visited')
        | (none, visited') => (none, visited')

/-- The loop over the candidates with the calls it makes, however deep they go. -/
inductive Tries (next : α → List α) (goal : α) :
    List α → Finset α → Option (List α) × Finset α → Prop
  | none {visited : Finset α} : Tries next goal [] visited (none, visited)
  | goal {visited : Finset α} {rest : List α} :
      Tries next goal (goal :: rest) visited (some [goal], visited)
  | seen {visited : Finset α} {a : α} {rest : List α} {r : Option (List α) × Finset α}
      (hne : a ≠ goal) (hseen : a ∈ visited) (hrest : Tries next goal rest visited r) :
      Tries next goal (a :: rest) visited r
  | found {visited visited' : Finset α} {a : α} {rest path : List α} (hne : a ≠ goal)
      (hfresh : a ∉ visited)
      (hcall : Tries next goal (next a) (insert a visited) (some path, visited')) :
      Tries next goal (a :: rest) visited (some (a :: path), visited')
  | failed {visited visited' : Finset α} {a : α} {rest : List α} {r : Option (List α) × Finset α}
      (hne : a ≠ goal) (hfresh : a ∉ visited)
      (hcall : Tries next goal (next a) (insert a visited) (none, visited'))
      (hrest : Tries next goal rest visited' r) : Tries next goal (a :: rest) visited r

def Edge (next : α → List α) (a b : α) : Prop := b ∈ next a

abbrev Reaches (next : α → List α) : α → α → Prop := Relation.ReflTransGen (Edge next)

def IsPath (next : α → List α) (a b : α) (path : List α) : Prop :=
  path.head? = some a ∧ path.getLast? = some b ∧ path.IsChain (Edge next)

omit [DecidableEq α] in
theorem isPath_single (next : α → List α) (a : α) : IsPath next a a [a] :=
  ⟨rfl, rfl, .singleton a⟩

omit [DecidableEq α] in
theorem IsPath.cons {next : α → List α} {a b c : α} {path : List α} (h : Edge next a b)
    (hp : IsPath next b c path) : IsPath next a c (a :: path) := by
  obtain ⟨hhead, hlast, hchain⟩ := hp
  cases path with
  | nil => simp at hhead
  | cons d rest =>
      obtain rfl : d = b := by simpa using hhead
      exact ⟨rfl, by simpa using hlast, List.isChain_cons_cons.mpr ⟨h, hchain⟩⟩

omit [DecidableEq α] in
theorem IsPath.reaches {next : α → List α} {a b : α} {path : List α}
    (hp : IsPath next a b path) : Reaches next a b := by
  induction path generalizing a with
  | nil => simp [IsPath] at hp
  | cons d rest ih =>
      obtain ⟨hhead, hlast, hchain⟩ := hp
      obtain rfl : d = a := by simpa using hhead
      cases rest with
      | nil =>
          obtain rfl : d = b := by simpa using hlast
          exact .refl
      | cons e rest =>
          have hchain' := List.isChain_cons_cons.mp hchain
          exact .head hchain'.1 (ih ⟨rfl, by simpa using hlast, hchain'.2⟩)

/-- What one search guarantees about the visited set it hands back when it
finds nothing: it has grown, and every node it added is a dead end. -/
structure Exhausted (next : α → List α) (goal : α) (before after : Finset α) : Prop where
  grown : before ⊆ after
  missed : ∀ a ∈ after, a ∉ before → a ≠ goal
  closed : ∀ a ∈ after, a ∉ before → ∀ b ∈ next a, b ∈ after

omit [DecidableEq α] in
theorem Exhausted.refl (next : α → List α) (goal : α) (s : Finset α) :
    Exhausted next goal s s :=
  ⟨Finset.Subset.refl s, fun _ h h' => absurd h h', fun _ h h' => absurd h h'⟩

theorem Exhausted.trans {next : α → List α} {goal : α} {s t u : Finset α}
    (h : Exhausted next goal s t) (h' : Exhausted next goal t u) : Exhausted next goal s u where
  grown := h.grown.trans h'.grown
  missed a ha has := by
    by_cases hat : a ∈ t
    · exact h.missed a hat has
    · exact h'.missed a ha hat
  closed a ha has b hb := by
    by_cases hat : a ∈ t
    · exact h'.grown (h.closed a hat has b hb)
    · exact h'.closed a ha hat b hb

omit [DecidableEq α] in
theorem Exhausted.not_reaches {next : α → List α} {goal start : α} {visited : Finset α}
    (h : Exhausted next goal ∅ visited) (hstart : start ∈ visited) : ¬ Reaches next start goal := by
  intro hr
  have hmem : ∀ {b}, Reaches next start b → b ∈ visited := by
    intro b hb
    induction hb with
    | refl => exact hstart
    | tail _ hedge ih => exact h.closed _ ih (Finset.notMem_empty _) _ hedge
  exact h.missed goal (hmem hr) (Finset.notMem_empty _) rfl

theorem card_visited {U visited : Finset α} {a : α} (ha : a ∈ U) (hvis : a ∉ visited) :
    (U \ insert a visited).card < (U \ visited).card := by
  apply Finset.card_lt_card
  refine ⟨Finset.sdiff_subset_sdiff (Finset.Subset.refl U) (Finset.subset_insert _ _), ?_⟩
  intro hsub
  have := hsub (Finset.mem_sdiff.mpr ⟨ha, hvis⟩)
  simp at this

theorem Tries.grown {next : α → List α} {goal : α} {candidates : List α} {visited : Finset α}
    {r : Option (List α) × Finset α} (h : Tries next goal candidates visited r) : visited ⊆ r.2 := by
  induction h with
  | none => exact Finset.Subset.refl _
  | goal => exact Finset.Subset.refl _
  | seen _ _ _ ih => exact ih
  | found _ _ _ ih => exact (Finset.subset_insert _ _).trans ih
  | failed _ _ _ _ ihcall ih => exact (Finset.subset_insert _ _).trans (ihcall.trans ih)

theorem Tries.deterministic {next : α → List α} {goal : α} {candidates : List α}
    {visited : Finset α} {r r' : Option (List α) × Finset α}
    (h : Tries next goal candidates visited r) (h' : Tries next goal candidates visited r') :
    r = r' := by
  induction h generalizing r' with
  | none =>
      cases h'
      rfl
  | goal =>
      cases h' with
      | goal => rfl
      | seen hne => exact absurd rfl hne
      | found hne => exact absurd rfl hne
      | failed hne => exact absurd rfl hne
  | seen hne hseen _ ih =>
      cases h' with
      | goal => exact absurd rfl hne
      | seen _ _ hrest => exact ih hrest
      | found _ hfresh => exact absurd hseen hfresh
      | failed _ hfresh => exact absurd hseen hfresh
  | found hne hfresh _ ih =>
      cases h' with
      | goal => exact absurd rfl hne
      | seen _ hseen => exact absurd hseen hfresh
      | found _ _ hcall => cases ih hcall; rfl
      | failed _ _ hcall => cases ih hcall
  | failed hne hfresh _ _ ihcall ih =>
      cases h' with
      | goal => exact absurd rfl hne
      | seen _ hseen => exact absurd hseen hfresh
      | found _ _ hcall => cases ihcall hcall
      | failed _ _ hcall hrest =>
          cases ihcall hcall
          exact ih hrest

/-- A call that finds a path ends the loop; after any other the loop goes on. -/
theorem Tries.cons {next : α → List α} {goal a : α} {rest : List α} {visited : Finset α}
    {first r : Option (List α) × Finset α} (h : Tries next goal [a] visited first)
    (hfound : first.1.isSome = true → r = first)
    (hfailed : first.1 = .none → Tries next goal rest first.2 r) :
    Tries next goal (a :: rest) visited r := by
  cases h with
  | goal =>
      cases hfound rfl
      exact .goal
  | seen hne hseen hnil =>
      cases hnil
      exact .seen hne hseen (hfailed rfl)
  | found hne hfresh hcall =>
      cases hfound rfl
      exact .found hne hfresh hcall
  | failed hne hfresh hcall hnil =>
      cases hnil
      exact .failed hne hfresh hcall (hfailed rfl)

theorem tries_firstPath {next : α → List α} {goal : α}
    {attempt : α → Finset α → Option (List α) × Finset α} {candidates : List α} {visited : Finset α}
    (hattempt : ∀ a ∈ candidates, ∀ vis, visited ⊆ vis → Tries next goal [a] vis (attempt a vis)) :
    Tries next goal candidates visited (firstPath attempt candidates visited) := by
  induction candidates generalizing visited with
  | nil => exact .none
  | cons a rest ih =>
      have ha := hattempt a List.mem_cons_self visited (Finset.Subset.refl _)
      rw [firstPath]
      cases hres : attempt a visited with
      | mk found visited' =>
          rw [hres] at ha
          cases found with
          | some path => exact ha.cons (fun _ => rfl) fun hnone => by cases hnone
          | none =>
              refine ha.cons (fun hsome => by cases hsome) fun _ => ?_
              exact ih fun b hb vis hvis =>
                hattempt b (List.mem_cons_of_mem _ hb) vis (ha.grown.trans hvis)

/-- With enough fuel the search is the recursion that has no bound. -/
theorem tries_search {next : α → List α} (goal : α) {U : Finset α}
    (hU : ∀ a ∈ U, ∀ b ∈ next a, b ∈ U) (fuel : Nat) (start : α) (visited : Finset α)
    (hstart : start ∈ U) (hfuel : (U \ visited).card < fuel) :
    Tries next goal [start] visited (search next goal fuel start visited) := by
  induction fuel generalizing start visited with
  | zero => omega
  | succ fuel ih =>
      rw [search]
      by_cases hgoal : start = goal
      · subst hgoal
        rw [if_pos rfl]
        exact .goal
      · rw [if_neg hgoal]
        by_cases hvis : start ∈ visited
        · rw [if_pos hvis]
          exact .seen hgoal hvis .none
        · rw [if_neg hvis]
          have hless := (card_visited hstart hvis).trans_le (Nat.le_of_lt_succ hfuel)
          have hfirst : Tries next goal (next start) (insert start visited)
              (firstPath (search next goal fuel) (next start) (insert start visited)) := by
            refine tries_firstPath fun a ha vis hsub => ih a vis (hU start hstart a ha) ?_
            exact (Finset.card_le_card (Finset.sdiff_subset_sdiff (Finset.Subset.refl U) hsub)).trans_lt
              hless
          cases hres : firstPath (search next goal fuel) (next start) (insert start visited) with
          | mk found visited' =>
              rw [hres] at hfirst
              cases found with
              | some path => exact .found hgoal hvis hfirst
              | none => exact .failed hgoal hvis hfirst .none

/-- What the loop returns is a path from one of the candidates. -/
theorem Tries.isPath {next : α → List α} {goal : α} {candidates : List α} {visited : Finset α}
    {r : Option (List α) × Finset α} (h : Tries next goal candidates visited r) {path : List α}
    (hr : r.1 = some path) : ∃ a ∈ candidates, IsPath next a goal path := by
  induction h generalizing path with
  | none => cases hr
  | goal =>
      cases hr
      exact ⟨goal, List.mem_cons_self, isPath_single next goal⟩
  | seen _ _ _ ih =>
      obtain ⟨b, hb, hp⟩ := ih hr
      exact ⟨b, List.mem_cons_of_mem _ hb, hp⟩
  | @found _ _ a _ _ _ _ _ ih =>
      cases hr
      obtain ⟨b, hb, hp⟩ := ih rfl
      exact ⟨a, List.mem_cons_self, hp.cons hb⟩
  | failed _ _ _ _ _ ih =>
      obtain ⟨b, hb, hp⟩ := ih hr
      exact ⟨b, List.mem_cons_of_mem _ hb, hp⟩

/-- A loop that finds nothing has come past every candidate, and what it has added
leads nowhere else. -/
theorem Tries.exhausted {next : α → List α} {goal : α} {candidates : List α} {visited : Finset α}
    {r : Option (List α) × Finset α} (h : Tries next goal candidates visited r)
    (hr : r.1 = .none) : Exhausted next goal visited r.2 ∧ ∀ a ∈ candidates, a ∈ r.2 := by
  induction h with
  | none => exact ⟨.refl next goal _, by simp⟩
  | goal => cases hr
  | seen _ hseen _ ih =>
      obtain ⟨hex, hmem⟩ := ih hr
      exact ⟨hex, List.forall_mem_cons.mpr ⟨hex.grown hseen, hmem⟩⟩
  | found => cases hr
  | @failed visited visited' a _ _ hne _ _ _ ihcall ih =>
      obtain ⟨hbelow, hnext⟩ := ihcall rfl
      obtain ⟨hex, hmem⟩ := ih hr
      have hin : a ∈ visited' := hbelow.grown (Finset.mem_insert_self _ _)
      have hfirst : Exhausted next goal visited visited' := by
        refine ⟨(Finset.subset_insert _ _).trans hbelow.grown, ?_, ?_⟩
        · intro b hb hnb
          by_cases heq : b = a
          · exact heq ▸ hne
          · exact hbelow.missed b hb (by simp [heq, hnb])
        · intro b hb hnb c hc
          by_cases heq : b = a
          · exact hnext c (heq ▸ hc)
          · exact hbelow.closed b hb (by simp [heq, hnb]) c hc
      exact ⟨hfirst.trans hex, List.forall_mem_cons.mpr ⟨hex.grown hin, hmem⟩⟩

theorem search_isPath {next : α → List α} {goal : α} {U : Finset α}
    (hU : ∀ a ∈ U, ∀ b ∈ next a, b ∈ U) {fuel : Nat} {start : α} {path : List α}
    (hstart : start ∈ U) (hfuel : U.card < fuel)
    (h : (search next goal fuel start ∅).1 = some path) : IsPath next start goal path := by
  obtain ⟨a, ha, hp⟩ := (tries_search goal hU fuel start ∅ hstart (by simpa using hfuel)).isPath h
  rwa [List.mem_singleton.mp ha] at hp

/-- The search is exact: it returns a path precisely when the goal can be
reached. -/
theorem search_isSome_iff {next : α → List α} {goal : α} {U : Finset α}
    (hU : ∀ a ∈ U, ∀ b ∈ next a, b ∈ U) {fuel : Nat} {start : α}
    (hstart : start ∈ U) (hfuel : U.card < fuel) :
    (search next goal fuel start ∅).1.isSome = true ↔ Reaches next start goal := by
  have htries := tries_search goal hU fuel start ∅ hstart (by simpa using hfuel)
  constructor
  · intro hsome
    obtain ⟨path, hpath⟩ := Option.isSome_iff_exists.mp hsome
    exact (search_isPath hU hstart hfuel hpath).reaches
  · intro hreach
    by_contra hnone
    obtain ⟨hex, hmem⟩ := htries.exhausted (by simpa using hnone)
    exact hex.not_reaches (hmem start (List.mem_singleton_self _)) hreach

end Prodinamik.Lib.PathSearch
