import Prodinamik.Machine.Condition
import Prodinamik.Machine.Validate

namespace Prodinamik.Machine

/-- A state machine exists only for a config that validation accepts. -/
structure StateMachine where
  config : StateMachineConfig
  accepted : Validate.critical config = []

namespace StateMachine

/-- can_transition with a runtime and without an LTL history. Where it allows
the transition the runtime is returned as it leaves it. -/
def canTransition (sm : StateMachine) (fromState toState : String) (rt : RuntimeState) :
    Except String RuntimeState :=
  match sm.config.state fromState with
  | none => .error ("Source state '" ++ fromState ++ "' not found")
  | some source =>
    match sm.config.state toState with
    | none => .error ("Target state '" ++ toState ++ "' not found")
    | some target =>
      if source.stateType = .terminal then
        .error ("Cannot transition from terminal state '" ++ fromState ++ "'")
      else
        match (sm.config.outgoing fromState).find? fun t => t.toState = toState with
        | none => .error ("No transition from '" ++ fromState ++ "' to '" ++ toState ++ "'")
        | some t =>
          if t.requiresHuman then .error "Transition requires human approval"
          else if fromState = toState ∧ ∃ k ∈ target.maxReentries, rt.reentryCount ≥ k then
            .error ("Max reentries (" ++ toString (target.maxReentries.getD 0) ++
              ") exceeded for state '" ++ toState ++ "'")
          else if t.condition.getD "" ≠ "" ∧
              Condition.evaluateCondition (t.condition.getD "") rt = false then
            .error ("Transition condition not met: " ++ t.condition.getD "")
          else if fromState = toState then .ok { rt with reentryCount := rt.reentryCount + 1 }
          else .ok rt

/-- get_next_states on an empty cache. -/
def nextStates (sm : StateMachine) (current : String) : List String :=
  (sm.config.outgoing current).map (·.toState)

def hitlQuestions (sm : StateMachine) (name : String) (rt : RuntimeState) :
    List (AskDirective ⊕ ConditionalAsk) :=
  match sm.config.state name with
  | none => []
  | some state =>
    match state.hitl with
    | none => []
    | some hitl =>
        hitl.askUser.map .inl ++
          (hitl.askIf.filter fun ask => Condition.evaluateCondition ask.condition rt).map .inr

/-- An answer is named by its value; the questions it belongs to do not matter. -/
def evaluateResumeTransition (sm : StateMachine) (name : String) (answers : List String) :
    Option String :=
  match sm.config.state name with
  | none => none
  | some state =>
    match state.hitl with
    | none => none
    | some hitl =>
      match hitl.resumeTransitions.find? fun entry => entry.1 ∈ answers with
      | some entry => some entry.2
      | none => hitl.resumeTransitions.lookup "*"

def isPauseState (sm : StateMachine) (name : String) : Bool :=
  match sm.config.state name with
  | none => false
  | some state =>
      state.stateType = .pause ∨ (state.hitl.map HITLConfig.hasQuestions).getD false

/-- The states a run may go through: each a declared transition away from the
one before, and none behind a terminal state. -/
def Step (sm : StateMachine) (a b : String) : Prop :=
  (∃ t ∈ sm.config.transitions, t.fromState = a ∧ t.toState = b) ∧
    ∀ state ∈ sm.config.state a, state.stateType ≠ .terminal

theorem canTransition_step {sm : StateMachine} {a b : String} {rt rt' : RuntimeState}
    (h : sm.canTransition a b rt = .ok rt') : Step sm a b := by
  rw [canTransition] at h
  cases hsource : sm.config.state a with
  | none => rw [hsource] at h; cases h
  | some source =>
      cases htarget : sm.config.state b with
      | none => rw [hsource, htarget] at h; cases h
      | some target =>
          rw [hsource, htarget] at h
          simp only at h
          by_cases hterminal : source.stateType = .terminal
          · rw [if_pos hterminal] at h; cases h
          rw [if_neg hterminal] at h
          cases hfind : (sm.config.outgoing a).find? fun t => t.toState = b with
          | none => rw [hfind] at h; cases h
          | some t =>
              have hmem := List.mem_filter.mp (List.mem_of_find?_eq_some hfind)
              have hto := List.find?_some hfind
              refine ⟨⟨t, hmem.1, by simpa using hmem.2, by simpa using hto⟩, ?_⟩
              intro state hstate
              rw [Option.mem_def, hsource] at hstate
              cases hstate
              exact hterminal

end StateMachine

structure ProductProfile where
  name : String
  stateMachine : Option StateMachine

end Prodinamik.Machine
