import Prodinamik.Lib.Graph
import Prodinamik.Machine.StateMachine

namespace Prodinamik.Machine

open Relation

namespace StateMachineConfig

/-- A declared transition from a to b. -/
def Edge (config : StateMachineConfig) (a b : String) : Prop :=
  ∃ t ∈ config.transitions, t.fromState = a ∧ t.toState = b

abbrev Path (config : StateMachineConfig) : String → String → Prop := ReflTransGen config.Edge

/-- Reachable from an initial state by declared transitions. -/
def Reachable (config : StateMachineConfig) (a : String) : Prop :=
  ∃ initial ∈ config.initialStates, config.Path initial.name a

theorem mem_outgoing {config : StateMachineConfig} {t : TransitionDefinition} {a : String} :
    t ∈ config.outgoing a ↔ t ∈ config.transitions ∧ t.fromState = a := by
  rw [outgoing, List.mem_filter, decide_eq_true_eq]

theorem edge_iff {config : StateMachineConfig} {a b : String} :
    config.Edge a b ↔ ∃ t ∈ config.outgoing a, t.toState = b := by
  simp only [Edge, mem_outgoing, and_assoc]

theorem Reachable.trans {config : StateMachineConfig} {a b : String} (h : config.Reachable a)
    (hp : config.Path a b) : config.Reachable b := by
  obtain ⟨initial, hinitial, ha⟩ := h
  exact ⟨initial, hinitial, ha.trans hp⟩

end StateMachineConfig

namespace StateMachine

variable (sm : StateMachine)

theorem no_error {e : ValidationError} (he : e ∈ Validate.validate sm.config) :
    e.severity ≠ .error := by
  intro herror
  have hmem : e ∈ Validate.critical sm.config := List.mem_filter.mpr ⟨he, decide_eq_true herror⟩
  rw [sm.accepted] at hmem
  cases hmem

theorem mem_validate {e : ValidationError} (h : e ∈ Validate.initialStateErrors sm.config ∨
    e ∈ Validate.transitionTargetErrors sm.config) : e ∈ Validate.validate sm.config := by
  simp only [Validate.validate, List.mem_append]
  tauto

theorem initial_outgoing {s : StateDefinition} (hs : s ∈ sm.config.initialStates) :
    sm.config.outgoing s.name ≠ [] := by
  intro hnil
  have herror : (⟨"states." ++ s.name, "Initial state '" ++ s.name ++
      "' has no outgoing transitions", .error⟩ : ValidationError) ∈
        Validate.initialStateErrors sm.config := by
    refine List.mem_map.mpr ⟨s, List.mem_filter.mpr ⟨hs, ?_⟩, rfl⟩
    rw [hnil]
    rfl
  exact sm.no_error (sm.mem_validate (Or.inl herror)) rfl

theorem transitionTargetErrors_eq_nil : Validate.transitionTargetErrors sm.config = [] := by
  refine List.eq_nil_iff_forall_not_mem.mpr fun e he => ?_
  refine sm.no_error (sm.mem_validate (Or.inr he)) ?_
  obtain ⟨t, -, he⟩ := List.mem_flatMap.mp he
  obtain he | he := List.mem_append.mp he
  · split at he
    · cases he
    · rw [List.mem_singleton.mp he]
  · split at he
    · cases he
    · rw [List.mem_singleton.mp he]

/-- Both ends of a transition are declared. -/
theorem declared {t : TransitionDefinition} (ht : t ∈ sm.config.transitions) :
    (sm.config.state t.toState).isSome = true ∧ (sm.config.state t.fromState).isSome = true := by
  have hnil := List.flatMap_eq_nil_iff.mp sm.transitionTargetErrors_eq_nil t ht
  obtain ⟨hto, hfrom⟩ := List.append_eq_nil_iff.mp hnil
  constructor
  · by_contra hnone
    rw [if_neg hnone] at hto
    cases hto
  · by_contra hnone
    rw [if_neg hnone] at hfrom
    cases hfrom

theorem initial_declared {s : StateDefinition} (hs : s ∈ sm.config.initialStates) :
    (sm.config.state s.name).isSome = true := by
  obtain ⟨t, ht⟩ := List.exists_mem_of_ne_nil _ (sm.initial_outgoing hs)
  obtain ⟨hmem, hfrom⟩ := StateMachineConfig.mem_outgoing.mp ht
  rw [← hfrom]
  exact (sm.declared hmem).2

theorem reachable_declared {a : String} (h : sm.config.Reachable a) :
    (sm.config.state a).isSome = true := by
  obtain ⟨initial, hinitial, hpath⟩ := h
  cases hpath with
  | refl => exact sm.initial_declared hinitial
  | tail _ hedge =>
      obtain ⟨t, ht, -, rfl⟩ := hedge
      exact (sm.declared ht).1

/-- get_transition_type -/
def transitionType (a b : String) : TransitionType :=
  (((sm.config.outgoing a).find? fun t => t.toState = b).map (·.transitionType)).getD .reversible

end StateMachine

theorem StateMachineConfig.mem_keys_of_state {config : StateMachineConfig} {name : String}
    (h : (config.state name).isSome = true) : name ∈ config.states.map Prod.fst := by
  obtain ⟨s, hs⟩ := Option.isSome_iff_exists.mp h
  obtain ⟨before, after, heq, -⟩ := List.lookup_eq_some_iff.mp hs
  rw [heq]
  simp

end Prodinamik.Machine
