import Prodinamik.Lib.Graph
import Prodinamik.Machine.Cycles

namespace Prodinamik.Machine.Validate

open Relation Lib.Worklist

variable (config : StateMachineConfig)

/-- The transitions that the loop has not gone through yet. -/
def waiting (reachable : List String) : List TransitionDefinition :=
  config.transitions.filter fun t => t.fromState ∉ reachable

theorem waiting_visit {node : String} {reachable : List String} (h : node ∉ reachable) :
    (waiting config (node :: reachable)).length + (targets config node).length =
      (waiting config reachable).length := by
  rw [targets, List.length_map, StateMachineConfig.outgoing, waiting, waiting]
  induction config.transitions with
  | nil => rfl
  | cons t rest ih =>
      by_cases hnode : t.fromState = node
      · simp [hnode, h] at ih ⊢
        omega
      · by_cases hmem : t.fromState ∈ reachable
        · simpa [hnode, hmem] using ih
        · simp [hnode, hmem] at ih ⊢
          omega

/-- Every round takes a name from the queue, and every transition puts at most one into it. -/
theorem drains_reachLoop (fuel : Nat) (queue reachable : List String)
    (hfuel : queue.length + (waiting config reachable).length ≤ fuel) :
    Drains (targets config) queue reachable (reachLoop config fuel queue reachable) := by
  induction fuel generalizing queue reachable with
  | zero =>
      obtain rfl : queue = [] := List.length_eq_zero_iff.mp (by omega)
      exact .done
  | succ fuel ih =>
      cases queue with
      | nil => exact .done
      | cons node queue =>
          rw [List.length_cons] at hfuel
          rw [reachLoop]
          split
          case isTrue h => exact .skip h (ih queue reachable (by omega))
          case isFalse h =>
            refine .visit h (ih _ _ ?_)
            have hwaiting := waiting_visit config h
            have hfilter := List.length_filter_le (· ∉ node :: reachable) (targets config node)
            rw [List.length_append]
            omega

theorem drains_findReachableStates :
    Drains (targets config) (config.initialStates.map (·.name)) [] (findReachableStates config) := by
  refine drains_reachLoop config _ _ [] ?_
  have hwaiting : (waiting config []).length ≤ config.transitions.length := List.length_filter_le _ _
  rw [List.length_map]
  omega

theorem edge_targets : Edge (targets config) = config.Edge := by
  funext a b
  exact propext (List.mem_map.trans StateMachineConfig.edge_iff.symm)

theorem mem_findReachableStates (name : String) :
    name ∈ findReachableStates config ↔ config.Reachable name := by
  rw [(drains_findReachableStates config).mem_iff, edge_targets]
  constructor
  · rintro ⟨_, hinitial, hpath⟩
    obtain ⟨initial, hmem, rfl⟩ := List.mem_map.mp hinitial
    exact ⟨initial, hmem, hpath⟩
  · rintro ⟨initial, hmem, hpath⟩
    exact ⟨_, List.mem_map_of_mem hmem, hpath⟩

/-- The loop ends with the names that initial states lead to, and a configuration is
accepted only if these are all the other states. -/
theorem findReachableStates_exact :
    (∀ r, Drains (targets config) (config.initialStates.map (·.name)) [] r ↔
      r = findReachableStates config) ∧
    (∀ name, name ∈ findReachableStates config ↔ config.Reachable name) ∧
    (critical config = [] → ∀ s ∈ config.states, s.2.stateType ≠ .initial →
      config.Reachable s.1) := by
  have hdrains := drains_findReachableStates config
  refine ⟨fun r => ⟨fun hr => hr.deterministic hdrains, fun hr => hr ▸ hdrains⟩,
    mem_findReachableStates config, fun hcritical s hs htype => ?_⟩
  by_contra hunreachable
  have hmissing : s.1 ∉ findReachableStates config :=
    fun hmem => hunreachable ((mem_findReachableStates config s.1).mp hmem)
  have herror : (⟨"states." ++ s.1, "Unreachable state: '" ++ s.1 ++
      "'. No path from any initial state.", .error⟩ : ValidationError) ∈ reachabilityErrors config :=
    List.mem_map.mpr ⟨s, List.mem_filter.mpr ⟨hs, decide_eq_true ⟨hmissing, htype⟩⟩, rfl⟩
  have hvalidate : (⟨"states." ++ s.1, "Unreachable state: '" ++ s.1 ++
      "'. No path from any initial state.", .error⟩ : ValidationError) ∈ validate config := by
    simp only [validate, List.mem_append]
    tauto
  exact absurd (List.filter_eq_nil_iff.mp hcritical _ hvalidate) (by simp)

end Prodinamik.Machine.Validate
