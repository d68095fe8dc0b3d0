import Mathlib.Order.Basic
import Prodinamik.Lib.PathSearch
import Prodinamik.Lib.SharedLog
import Prodinamik.Raft.Types

namespace Prodinamik.Raft.StateCRDT

open Lib.PathSearch Lib.ChoiceMerge

abbrev Transitions := List (String × List String)

def successors (transitions : Transitions) (state : String) : List String :=
  (transitions.lookup state).getD []

def nodes (transitions : Transitions) (start : String) : Finset String :=
  insert start (transitions.flatMap Prod.snd).toFinset

def findPath (start finish : String) (transitions : Transitions) : Option (List String) :=
  (search (successors transitions) finish ((nodes transitions start).card + 1) start ∅).1

def isOnSamePath (a b : String) (transitions : Transitions) : Bool :=
  if transitions.isEmpty then false
  else if (findPath a b transitions).isSome then true
  else if (findPath b a transitions).isSome then true
  else false

/-- Whether merge answers with its second argument. -/
def keepsRemote (here remote : NodeState) (transitions : Transitions) : Bool :=
  if remote.version > here.version then true
  else if here.version > remote.version then false
  else if remote.currentState = here.currentState then false
  else if isOnSamePath here.currentState remote.currentState transitions then
    match findPath here.currentState remote.currentState transitions with
    | some path => path.getLast? = some remote.currentState
    | none => false
  else false

def merge (here remote : NodeState) (transitions : Transitions) : NodeState :=
  if keepsRemote here remote transitions then remote else here

abbrev Reachable (transitions : Transitions) : String → String → Prop :=
  Reaches (successors transitions)

theorem successors_mem_nodes (transitions : Transitions) (start : String) :
    ∀ a ∈ nodes transitions start, ∀ b ∈ successors transitions a, b ∈ nodes transitions start := by
  intro a _ b hb
  rw [nodes, Finset.mem_insert, List.mem_toFinset, List.mem_flatMap]
  rw [successors] at hb
  cases hlook : transitions.lookup a with
  | none => simp [hlook] at hb
  | some targets =>
      rw [hlook, Option.getD_some] at hb
      obtain ⟨l₁, l₂, rfl, -⟩ := List.lookup_eq_some_iff.mp hlook
      exact Or.inr ⟨(a, targets), by simp, hb⟩

theorem findPath_isPath {start finish : String} {transitions : Transitions} {path : List String}
    (h : findPath start finish transitions = some path) :
    IsPath (successors transitions) start finish path :=
  search_isPath (successors_mem_nodes transitions start) (Finset.mem_insert_self _ _)
    (Nat.lt_succ_self _) h

theorem findPath_isSome_iff (start finish : String) (transitions : Transitions) :
    (findPath start finish transitions).isSome = true ↔ Reachable transitions start finish :=
  search_isSome_iff (successors_mem_nodes transitions start) (Finset.mem_insert_self _ _)
    (Nat.lt_succ_self _)

theorem not_reachable_of_empty {a b : String} (hne : a ≠ b) : ¬ Reachable [] a b := by
  intro h
  cases h.cases_head with
  | inl heq => exact hne heq
  | inr hstep =>
      obtain ⟨c, hedge, -⟩ := hstep
      simp [Edge, successors] at hedge

theorem isOnSamePath_iff {a b : String} (hne : a ≠ b) (transitions : Transitions) :
    isOnSamePath a b transitions = true ↔ Reachable transitions a b ∨ Reachable transitions b a := by
  cases transitions with
  | nil => simp [isOnSamePath, not_reachable_of_empty hne, not_reachable_of_empty (Ne.symm hne)]
  | cons t rest => simp [isOnSamePath, findPath_isSome_iff]

/-- What decides between two states of one version: the remote state wins
exactly when it can be reached from the local one. -/
theorem keepsRemote_iff (here remote : NodeState) (transitions : Transitions) :
    keepsRemote here remote transitions = true ↔
      here.version < remote.version ∨ here.version = remote.version ∧
        here.currentState ≠ remote.currentState ∧
        Reachable transitions here.currentState remote.currentState := by
  rw [keepsRemote]
  rcases lt_trichotomy here.version remote.version with hlt | heq | hgt
  · simp [hlt]
  · by_cases hs : remote.currentState = here.currentState
    · simp [heq, hs]
    · have hpath : (match findPath here.currentState remote.currentState transitions with
          | some path => decide (path.getLast? = some remote.currentState)
          | none => false) = true ↔
            Reachable transitions here.currentState remote.currentState := by
        rw [← findPath_isSome_iff]
        cases hf : findPath here.currentState remote.currentState transitions with
        | none => simp
        | some path => simp [(findPath_isPath hf).2.1]
      have hsame := isOnSamePath_iff (Ne.symm hs) transitions
      by_cases hon : isOnSamePath here.currentState remote.currentState transitions = true
      · simpa [heq, hs, Ne.symm hs, hon] using hpath
      · have hno : ¬ Reachable transitions here.currentState remote.currentState :=
          fun hr => hon (hsame.mpr (Or.inl hr))
        simp [heq, hs, hon, hno]
  · simp [not_lt.mpr hgt.le, hgt, hgt.ne']

/-- Two states between which merge can decide the same way on both sides:
their versions differ, or they are in one state, or exactly one of the two
states leads to the other. -/
def Decided (transitions : Transitions) (a b : NodeState) : Prop :=
  a.version ≠ b.version ∨ a.currentState = b.currentState ∨
    ¬ (Reachable transitions a.currentState b.currentState ↔
      Reachable transitions b.currentState a.currentState)

def Older (transitions : Transitions) (a b : NodeState) : Prop :=
  a.version < b.version ∨ a.version = b.version ∧
    Reachable transitions a.currentState b.currentState

theorem nodeState_ext {a b : NodeState} (hs : a.currentState = b.currentState)
    (hv : a.version = b.version) : a = b := by
  cases a; cases b; simp_all

theorem merge_picksMax {transitions : Transitions} {S : Set NodeState}
    (h : ∀ a ∈ S, ∀ b ∈ S, Decided transitions a b) :
    PicksMax (fun a b => merge a b transitions) (Older transitions) S where
  antisymm a ha b hb hab hba := by
    rcases hab with hab | ⟨hv, hab⟩
    · rcases hba with hba | ⟨hv, -⟩ <;> omega
    · rcases hba with hba | ⟨-, hba⟩
      · omega
      · rcases h a ha b hb with hne | hs | hone
        · exact absurd hv hne
        · exact nodeState_ext hs hv
        · exact absurd (iff_of_true hab hba) hone
  trans a _ b _ c _ hab hbc := by
    rcases hab with hab | ⟨hv, hab⟩ <;> rcases hbc with hbc | ⟨hw, hbc⟩
    · exact Or.inl (hab.trans hbc)
    · exact Or.inl (hw ▸ hab)
    · exact Or.inl (hv ▸ hbc)
    · exact Or.inr ⟨hv.trans hw, hab.trans hbc⟩
  picks a ha b hb := by
    rw [merge]
    by_cases hk : keepsRemote a b transitions = true
    · rw [if_pos hk]
      refine Or.inr ⟨rfl, ?_⟩
      rcases (keepsRemote_iff a b transitions).mp hk with hlt | ⟨hv, -, hr⟩
      · exact Or.inl hlt
      · exact Or.inr ⟨hv, hr⟩
    · rw [if_neg hk]
      refine Or.inl ⟨rfl, ?_⟩
      rw [keepsRemote_iff, not_or] at hk
      rcases lt_trichotomy a.version b.version with hlt | heq | hgt
      · exact absurd hlt hk.1
      · refine Or.inr ⟨heq.symm, ?_⟩
        by_cases hs : a.currentState = b.currentState
        · rw [hs]
        · have hno : ¬ Reachable transitions a.currentState b.currentState :=
            fun hr => hk.2 ⟨heq, hs, hr⟩
          rcases h a ha b hb with hne | hs' | hone
          · exact absurd heq hne
          · exact absurd hs' hs
          · by_contra hnb
            exact hone (iff_of_false hno hnb)
      · exact Or.inl hgt

theorem decided_of_comm {transitions : Transitions} {a b : NodeState}
    (h : merge a b transitions = merge b a transitions) : Decided transitions a b := by
  by_contra hd
  simp only [Decided, not_or, not_not] at hd
  obtain ⟨hv, hs, hiff⟩ := hd
  have hab := keepsRemote_iff a b transitions
  have hba := keepsRemote_iff b a transitions
  have hkeep : keepsRemote a b transitions = keepsRemote b a transitions := by
    rw [Bool.eq_iff_iff, hab, hba]
    simp [hv, hs, Ne.symm hs, hiff]
  rw [merge, merge, hkeep] at h
  by_cases hk : keepsRemote b a transitions = true
  · rw [if_pos hk, if_pos hk] at h
    exact hs (congrArg NodeState.currentState h).symm
  · rw [if_neg hk, if_neg hk] at h
    exact hs (congrArg NodeState.currentState h)

/-- merge obeys the laws of a replicated type, and replicas converge, on
exactly those sets of states that it can decide pairwise. -/
theorem merge_converges_iff (transitions : Transitions) (S : Set NodeState) :
    Lawful (fun a b => merge a b transitions) S ∧
        Converges (fun a b => merge a b transitions) S ↔
      ∀ a ∈ S, ∀ b ∈ S, Decided transitions a b := by
  constructor
  · rintro ⟨hlaw, -⟩ a ha b hb
    exact decided_of_comm (hlaw.comm a ha b hb)
  · intro h
    have hconv := (merge_picksMax h).converges
    exact ⟨hconv.lawful, hconv⟩

/-- Two states on the review cycle of the software profile: each of the two
replicas takes over the other one's state. -/
theorem merge_not_lawful :
    ¬ ∀ (transitions : Transitions) (a b c : NodeState),
      Lawful (fun x y => merge x y transitions) {a, b, c} := by
  intro h
  have hlaw := h [("iteration", ["iteration", "review"]), ("review", ["release", "iteration"])]
    ⟨"iteration", 4⟩ ⟨"review", 4⟩ ⟨"iteration", 4⟩
  exact absurd (hlaw.comm ⟨"iteration", 4⟩ (by simp) ⟨"review", 4⟩ (by simp)) (by decide)

def Acyclic (transitions : Transitions) : Prop :=
  ∀ a, ¬ Relation.TransGen (Edge (successors transitions)) a a

theorem Acyclic.not_reachable_back {transitions : Transitions} (h : Acyclic transitions)
    {a b : String} (hne : a ≠ b) (hab : Reachable transitions a b) : ¬ Reachable transitions b a := by
  intro hba
  obtain heq | htrans := Relation.reflTransGen_iff_eq_or_transGen.mp hab
  · exact hne heq.symm
  · exact h a (htrans.trans_left hba)

theorem merge_eq_remote {transitions : Transitions} {here remote : NodeState}
    (hversion : here.version = remote.version)
    (hr : Reachable transitions here.currentState remote.currentState) :
    merge here remote transitions = remote := by
  by_cases hs : here.currentState = remote.currentState
  · rw [merge, nodeState_ext hs hversion, ite_self]
  · rw [merge, if_pos ((keepsRemote_iff here remote transitions).mpr (.inr ⟨hversion, hs, hr⟩))]

theorem merge_eq_here {transitions : Transitions} (hacyclic : Acyclic transitions)
    {here remote : NodeState} (hversion : here.version = remote.version)
    (hr : Reachable transitions remote.currentState here.currentState) :
    merge here remote transitions = here := by
  refine if_neg fun hkeep => ?_
  obtain hlt | ⟨-, hne, hback⟩ := (keepsRemote_iff here remote transitions).mp hkeep
  · omega
  · exact hacyclic.not_reachable_back hne hback hr

/-- The search ends, what it returns is a path and it returns one whenever there
is one; where there are no cycles merge answers with the later of two states of
one version. -/
theorem findPath_exact (transitions : Transitions) :
    (∀ a b, (∃ visited, ∀ r, Tries (successors transitions) b [a] ∅ r ↔
        r = (findPath a b transitions, visited)) ∧
      (∀ path, findPath a b transitions = some path → IsPath (successors transitions) a b path) ∧
      ((findPath a b transitions).isSome = true ↔ Reachable transitions a b)) ∧
    (Acyclic transitions → ∀ here remote : NodeState, here.version = remote.version →
      (Reachable transitions here.currentState remote.currentState →
        merge here remote transitions = remote) ∧
      (Reachable transitions remote.currentState here.currentState →
        merge here remote transitions = here)) := by
  constructor
  · intro a b
    have htries := tries_search b (successors_mem_nodes transitions a)
      ((nodes transitions a).card + 1) a ∅ (Finset.mem_insert_self _ _) (by simp)
    refine ⟨⟨_, fun r => ⟨fun hr => hr.deterministic htries, fun hr => ?_⟩⟩,
      fun path hpath => findPath_isPath hpath, findPath_isSome_iff a b transitions⟩
    rw [hr]
    exact htries
  · intro hacyclic here remote hversion
    exact ⟨merge_eq_remote hversion, merge_eq_here hacyclic hversion⟩

theorem findPath_exact_review :
    merge ⟨"release", 4⟩ ⟨"review", 4⟩ [("review", ["release"])] = ⟨"release", 4⟩ := by
  refine (((findPath_exact [("review", ["release"])]).2 ?_ ⟨"release", 4⟩ ⟨"review", 4⟩ rfl).2 ?_)
  · have hedge : ∀ a b, Edge (successors [("review", ["release"])]) a b →
        a = "review" ∧ b = "release" := by
      intro a b h
      by_cases ha : a = "review"
      · subst ha
        exact ⟨rfl, List.mem_singleton.mp h⟩
      · have hnil : successors [("review", ["release"])] a = [] := by
          rw [successors, List.lookup_cons, beq_eq_false_iff_ne.mpr ha]
          rfl
        rw [Edge, hnil] at h
        cases h
    have hends : ∀ a b, Relation.TransGen (Edge (successors [("review", ["release"])])) a b →
        a = "review" ∧ b = "release" := by
      intro a b h
      induction h with
      | single h => exact hedge _ _ h
      | tail _ h ih => exact ⟨ih.1, (hedge _ _ h).2⟩
    intro a h
    obtain ⟨rfl, hr⟩ := hends a a h
    exact absurd hr (by decide)
  · exact .single (List.mem_singleton_self _)

end Prodinamik.Raft.StateCRDT
