import Prodinamik.Lib.Grouping
import Prodinamik.Machine.StateMachine

namespace Prodinamik.Machine

open Lib.Assoc

/-- config.states is asked for a name. -/
def StateMachineConfig.has (config : StateMachineConfig) (name : String) : Bool :=
  (config.state name).isSome

def StateMachineConfig.terminal (config : StateMachineConfig) (name : String) : Bool :=
  (config.state name).any fun s => s.stateType = .terminal

structure MigrationResult where
  errors : List String := []
  migratedStates : List (String × String) := []

/-- The flag goes down with the first error. -/
def MigrationResult.success (result : MigrationResult) : Bool := result.errors = []

structure MigrationPlan where
  stateMap : String → Option String := fun _ => none
  addedStates : List String := []
  removedStates : List String := []

namespace MigrationPlan

/-- Where a state goes: to its name in the map, or else it stays. -/
def target (plan : MigrationPlan) (new : StateMachineConfig) (oldState : String) : Option String :=
  let newName := (plan.stateMap oldState).getD oldState
  if new.has newName then some newName else if new.has oldState then some oldState else none

/-- The terminal states are gone through in the order of a set; here it is that of the states. -/
def execute (plan : MigrationPlan) (oldSm : StateMachine) (newConfig : StateMachineConfig) :
    MigrationResult where
  migratedStates := oldSm.config.states.filterMap fun s =>
    (plan.target newConfig s.1).map fun newName => (s.1, newName)
  errors :=
    (oldSm.config.states.filterMap fun s =>
      if (plan.target newConfig s.1).isNone ∧ s.1 ∉ plan.removedStates then
        some ("State '" ++ s.1 ++ "' has no mapping in new config") else none) ++
    (plan.addedStates.filterMap fun newState =>
      if newConfig.has newState then none
      else some ("Added state '" ++ newState ++ "' not found in new config")) ++
    oldSm.config.states.filterMap fun s =>
      let newT := (plan.stateMap s.1).getD s.1
      if s.2.stateType = .terminal ∧ s.1 ∉ plan.removedStates ∧ ¬ newConfig.terminal newT then
        some ("Terminal state '" ++ s.1 ++ "' → '" ++ newT ++ "' not terminal in new config")
      else none

/-- One plan after another, as one plan. -/
def andThen (plan next : MigrationPlan) (oldConfig middle new : StateMachineConfig) :
    MigrationPlan where
  stateMap s := (plan.target middle s).bind (next.target new)
  addedStates := next.addedStates ++ plan.addedStates.filterMap (next.target new)
  removedStates := (oldConfig.states.map Prod.fst).filter fun s =>
    s ∈ plan.removedStates ∨ ∃ t ∈ plan.target middle s, t ∈ next.removedStates

end MigrationPlan

namespace StateMachineConfig

variable {config : StateMachineConfig} {name : String}

theorem has_iff : config.has name = true ↔ ∃ s, (name, s) ∈ config.states := by
  rw [has, Option.isSome_iff_exists]
  exact exists_congr fun s => lookup_eq_some_iff config.nodup

theorem terminal_iff : config.terminal name = true ↔
    ∃ s, (name, s) ∈ config.states ∧ s.stateType = .terminal := by
  rw [terminal, Option.any_eq_true]
  refine exists_congr fun s => and_congr (lookup_eq_some_iff config.nodup) ?_
  exact decide_eq_true_iff

theorem has_of_terminal (h : config.terminal name = true) : config.has name = true := by
  obtain ⟨s, hs, -⟩ := terminal_iff.mp h
  exact has_iff.mpr ⟨s, hs⟩

end StateMachineConfig

namespace MigrationPlan

variable {plan next : MigrationPlan} {oldSm middleSm : StateMachine} {new : StateMachineConfig}

theorem has_of_target {s t : String} (h : plan.target new s = some t) : new.has t = true := by
  rw [target] at h
  split at h
  · obtain rfl := Option.some.inj h
    assumption
  split at h
  · obtain rfl := Option.some.inj h
    assumption
  · cases h

/-- The name in the map comes first. -/
theorem target_eq_of_has {s : String} (h : new.has ((plan.stateMap s).getD s) = true) :
    plan.target new s = some ((plan.stateMap s).getD s) := by
  rw [target, if_pos h]

/-- A state is put at its target, if it has one. -/
theorem lookup_migratedStates (s : String) : (plan.execute oldSm new).migratedStates.lookup s =
    if oldSm.config.has s then plan.target new s else none :=
  lookup_filterMap (plan.target new) oldSm.config.states s

/-- A migration succeeds when every state that is not removed has a target, the added states are
there, and terminal states that are not removed are named after terminal ones. -/
theorem execute_success_iff : (plan.execute oldSm new).success = true ↔
    (∀ s, oldSm.config.has s = true → s ∉ plan.removedStates →
      (plan.target new s).isSome = true) ∧
    (∀ s ∈ plan.addedStates, new.has s = true) ∧
    ∀ s, oldSm.config.terminal s = true → s ∉ plan.removedStates →
      new.terminal ((plan.stateMap s).getD s) = true := by
  rw [MigrationResult.success, decide_eq_true_iff, execute]
  simp only [List.append_eq_nil_iff, List.filterMap_eq_nil_iff, and_assoc]
  refine and_congr ⟨fun h s hs hkept => ?_, fun h x hx => ?_⟩
    (and_congr ⟨fun h s hs => ?_, fun h s hs => ?_⟩ ⟨fun h s hs hkept => ?_, fun h x hx => ?_⟩)
  · obtain ⟨d, hd⟩ := StateMachineConfig.has_iff.mp hs
    have hno := h (s, d) hd
    by_contra hnone
    rw [if_pos ⟨by simpa using hnone, hkept⟩] at hno
    cases hno
  · refine if_neg fun hno => ?_
    have hsome := h x.1 (StateMachineConfig.has_iff.mpr ⟨x.2, hx⟩) hno.2
    rw [Option.isNone_iff_eq_none.mp hno.1] at hsome
    cases hsome
  · have hno := h s hs
    by_contra hhas
    rw [if_neg hhas] at hno
    cases hno
  · exact if_pos (h s hs)
  · obtain ⟨d, hd, hterminal⟩ := StateMachineConfig.terminal_iff.mp hs
    have hno := h (s, d) hd
    by_contra hnot
    rw [if_pos ⟨hterminal, hkept, hnot⟩] at hno
    cases hno
  · refine if_neg fun hno => hno.2.2 (h x.1 ?_ hno.2.1)
    exact StateMachineConfig.terminal_iff.mpr ⟨x.2, hx, hno.1⟩

/-- A terminal state that a successful migration does not remove goes to a terminal state. -/
theorem terminal_of_target (h : (plan.execute oldSm new).success = true) {s t : String}
    (hs : oldSm.config.terminal s = true) (hkept : s ∉ plan.removedStates)
    (ht : plan.target new s = some t) : new.terminal t = true := by
  have hterminal := (execute_success_iff.mp h).2.2 s hs hkept
  rw [target_eq_of_has (StateMachineConfig.has_of_terminal hterminal)] at ht
  obtain rfl := Option.some.inj ht
  exact hterminal

theorem notMem_removed_andThen {s : String} (hs : oldSm.config.has s = true) :
    s ∉ (plan.andThen next oldSm.config middleSm.config new).removedStates ↔
      s ∉ plan.removedStates ∧ ∀ t ∈ plan.target middleSm.config s, t ∉ next.removedStates := by
  obtain ⟨d, hd⟩ := StateMachineConfig.has_iff.mp hs
  have hmem : s ∈ oldSm.config.states.map Prod.fst := List.mem_map.mpr ⟨(s, d), hd, rfl⟩
  rw [andThen, List.mem_filter]
  simp [hmem]

/-- Two migrations that succeed one after another succeed as one, which takes a state that neither
removes where they take it. -/
theorem andThen_success (hfirst : (plan.execute oldSm middleSm.config).success = true)
    (hnext : (next.execute middleSm new).success = true) :
    let both := plan.andThen next oldSm.config middleSm.config new
    (both.execute oldSm new).success = true ∧
      ∀ s, oldSm.config.has s = true → s ∉ both.removedStates → ∃ t u,
        (plan.execute oldSm middleSm.config).migratedStates.lookup s = some t ∧
        (next.execute middleSm new).migratedStates.lookup t = some u ∧
        (both.execute oldSm new).migratedStates.lookup s = some u ∧
        (oldSm.config.terminal s = true → new.terminal u = true) := by
  intro both
  -- where the two take a state that neither removes
  have hway : ∀ s, oldSm.config.has s = true → s ∉ both.removedStates → ∃ t u,
      plan.target middleSm.config s = some t ∧ next.target new t = some u ∧
        middleSm.config.has t = true ∧ both.target new s = some u ∧ both.stateMap s = some u ∧
        (oldSm.config.terminal s = true → new.terminal u = true) := by
    intro s hs hkept
    obtain ⟨hkeptFirst, hkeptNext⟩ := (notMem_removed_andThen hs).mp hkept
    obtain ⟨t, ht⟩ := Option.isSome_iff_exists.mp ((execute_success_iff.mp hfirst).1 s hs hkeptFirst)
    have hmiddle := has_of_target ht
    obtain ⟨u, hu⟩ := Option.isSome_iff_exists.mp
      ((execute_success_iff.mp hnext).1 t hmiddle (hkeptNext t ht))
    have hmap : both.stateMap s = some u := by
      rw [show both.stateMap s = (plan.target middleSm.config s).bind (next.target new) from rfl, ht,
        Option.bind_some, hu]
    have htarget : both.target new s = some u := by
      have hhas : new.has ((both.stateMap s).getD s) = true := by
        rw [hmap]
        exact has_of_target hu
      rw [target_eq_of_has hhas, hmap, Option.getD_some]
    refine ⟨t, u, ht, hu, hmiddle, htarget, hmap, fun hterminal => ?_⟩
    have hterminal' := terminal_of_target hfirst hterminal hkeptFirst ht
    exact terminal_of_target hnext hterminal' (hkeptNext t ht) hu
  refine ⟨execute_success_iff.mpr ⟨fun s hs hkept => ?_, fun s hs => ?_, fun s hs hkept => ?_⟩,
    fun s hs hkept => ?_⟩
  · obtain ⟨t, u, -, -, -, htarget, -⟩ := hway s hs hkept
    rw [htarget]
    rfl
  · rcases List.mem_append.mp hs with hadded | hadded
    · exact (execute_success_iff.mp hnext).2.1 s hadded
    · obtain ⟨t, -, ht⟩ := List.mem_filterMap.mp hadded
      exact has_of_target ht
  · obtain ⟨t, u, -, -, -, -, hmap, hterminal⟩ :=
      hway s (StateMachineConfig.has_of_terminal hs) hkept
    rw [hmap]
    exact hterminal hs
  · obtain ⟨t, u, ht, hu, hmiddle, htarget, -, hterminal⟩ := hway s hs hkept
    refine ⟨t, u, ?_, ?_, ?_, hterminal⟩
    · rw [lookup_migratedStates, if_pos hs, ht]
    · rw [lookup_migratedStates, if_pos hmiddle, hu]
    · rw [lookup_migratedStates, if_pos hs, htarget]

def prototyping : StateMachine where
  config :=
    { states :=
        [("spec", .once "spec" .initial), ("prototyping", .once "prototyping" .intermediate),
          ("release", .once "release" .terminal)]
      transitions :=
        [{ fromState := "spec", toState := "prototyping" },
          { fromState := "prototyping", toState := "release" }]
      nodup := by decide }
  accepted := by decide

def implementing : StateMachine where
  config :=
    { states :=
        [("spec", .once "spec" .initial), ("implementation", .once "implementation" .intermediate),
          ("release", .once "release" .terminal)]
      transitions :=
        [{ fromState := "spec", toState := "implementation" },
          { fromState := "implementation", toState := "release" }]
      nodup := by decide }
  accepted := by decide

/-- Prototypes become implementations. -/
def toImplementation : MigrationPlan where
  stateMap s := if s = "prototyping" then some "implementation" else none
  addedStates := ["implementation"]

/-- And implementations become releases. -/
def toRelease : MigrationPlan where
  stateMap s := if s = "implementation" then some "release" else none

theorem andThen_success_release :
    ((toImplementation.andThen toRelease prototyping.config implementing.config
      implementing.config).execute prototyping implementing.config).success = true ∧
    ((toImplementation.andThen toRelease prototyping.config implementing.config
      implementing.config).execute prototyping implementing.config).migratedStates.lookup
        "prototyping" = some "release" := by
  obtain ⟨hsuccess, hway⟩ := @andThen_success toImplementation toRelease prototyping implementing
    implementing.config (by decide) (by decide)
  refine ⟨hsuccess, ?_⟩
  obtain ⟨t, u, ht, hu, hboth, -⟩ := hway "prototyping" (by decide) (by decide)
  have hfirst : (toImplementation.execute prototyping implementing.config).migratedStates.lookup
      "prototyping" = some "implementation" := by decide
  rw [hfirst] at ht
  obtain rfl := Option.some.inj ht
  have hnext : (toRelease.execute implementing implementing.config).migratedStates.lookup
      "implementation" = some "release" := by decide
  rw [hboth, ← hu, hnext]

end MigrationPlan

end Prodinamik.Machine
