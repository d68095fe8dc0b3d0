import Prodinamik.Machine.Graph

namespace Prodinamik.Machine

open Relation Lib.Graph

namespace StateMachineConfig

/-- A TERMINAL or an ERROR state. -/
def Final (config : StateMachineConfig) (a : String) : Prop :=
  ∃ s, config.state a = some s ∧ (s.stateType = .terminal ∨ s.stateType = .error)

/-- No run is trapped: from every state it can reach a final one. -/
def NoTrap (config : StateMachineConfig) : Prop :=
  ∀ a, config.Reachable a → ∃ b, config.Path a b ∧ config.Final b

/-- Every state that is not final has a transition to another state. -/
def CanBeLeft (config : StateMachineConfig) : Prop :=
  ∀ a, config.Reachable a → ¬ config.Final a → ∃ b, config.Edge a b ∧ b ≠ a

/-- Every group of two states and more that reach each other and nothing else
has a final state. -/
def GroupsEnd (config : StateMachineConfig) : Prop :=
  ∀ a b, config.Reachable a → Bottom config.Edge a → config.Path a b → b ≠ a →
    ∃ c, config.Path a c ∧ config.Final c

end StateMachineConfig

open StateMachineConfig

theorem StateMachine.finite_path (sm : StateMachine) {a : String} (h : sm.config.Reachable a) :
    {b | sm.config.Path a b}.Finite :=
  (List.finite_toSet (sm.config.states.map Prod.fst)).subset fun _ hb =>
    mem_keys_of_state (sm.reachable_declared (h.trans hb))

/-- Writing and revising, and revising and checking, go round in two cycles; each
of them is left for the other only. -/
def revising : StateMachine where
  config :=
    { states :=
        [("draft", .once "draft" .initial),
          ("write", .once "write" .intermediate),
          ("revise", .once "revise" .intermediate),
          ("check", .once "check" .intermediate),
          ("done", .once "done" .terminal)]
      transitions :=
        [{ fromState := "draft", toState := "write" },
          { fromState := "draft", toState := "done" },
          { fromState := "write", toState := "revise" },
          { fromState := "revise", toState := "write" },
          { fromState := "revise", toState := "check" },
          { fromState := "check", toState := "revise" }]
      nodup := by decide }
  accepted := by decide

theorem revising_edge : ∀ t ∈ revising.config.transitions,
    t.fromState ∈ ["write", "revise", "check"] → t.toState ∈ ["write", "revise", "check"] := by
  decide

theorem revising_path {b : String} (h : revising.config.Path "write" b) :
    b ∈ ["write", "revise", "check"] := by
  induction h with
  | refl => exact List.mem_cons_self
  | tail _ hedge ih =>
      obtain ⟨t, ht, rfl, rfl⟩ := hedge
      exact revising_edge t ht ih

end Prodinamik.Machine
