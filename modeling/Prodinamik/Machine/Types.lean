import Mathlib.Data.List.Basic

namespace Prodinamik.Machine

inductive TransitionType
  | reversible
  | compensable
  | irreversible
  deriving DecidableEq, Repr

inductive StateType
  | initial
  | intermediate
  | terminal
  | error
  | pause
  deriving DecidableEq, Repr

structure AskDirective where
  question : String
  type : String := "open"
  choices : List String := []
  required : Bool := true
  timeoutSeconds : Int := 300
  deriving DecidableEq, Repr

structure ConditionalAsk where
  condition : String
  question : String
  type : String := "yes_no"
  choices : List String := []
  onTimeout : String := "proceed"
  deriving DecidableEq, Repr

structure HITLConfig where
  askUser : List AskDirective := []
  askIf : List ConditionalAsk := []
  onTimeout : String := "proceed"
  resumeTransitions : List (String × String) := []
  deriving DecidableEq, Repr

def HITLConfig.hasQuestions (hitl : HITLConfig) : Bool := hitl.askUser ≠ [] ∨ hitl.askIf ≠ []

/-- The last two fields are what __post_init__ asserts. -/
structure StateDefinition where
  name : String
  stateType : StateType
  maxReentries : Option Int := none
  timeoutSeconds : Option Int := none
  temporalOnTimeout : Option String := none
  hitl : Option HITLConfig := none
  terminal_reentries : stateType = .terminal → maxReentries = none ∨ maxReentries = some 0 := by
    decide
  initial_reentries : stateType = .initial → ∀ k ∈ maxReentries, k ≤ 1 := by decide

/-- A state that is not entered from itself. -/
def StateDefinition.once (name : String) (stateType : StateType) : StateDefinition where
  name := name
  stateType := stateType
  maxReentries := some 0
  terminal_reentries := fun _ => Or.inr rfl
  initial_reentries := by
    rintro - k ⟨⟩
    decide

structure TransitionDefinition where
  fromState : String
  toState : String
  transitionType : TransitionType := .reversible
  condition : Option String := none
  requiresHuman : Bool := false
  deriving DecidableEq, Repr

structure LTLRule where
  expression : String
  deriving DecidableEq, Repr

/-- The states are a dict: no two have the same key. -/
structure StateMachineConfig where
  states : List (String × StateDefinition)
  transitions : List TransitionDefinition
  ltlRules : List LTLRule := []
  nodup : (states.map Prod.fst).Nodup

namespace StateMachineConfig

def ofType (config : StateMachineConfig) (type : StateType) : List StateDefinition :=
  (config.states.map Prod.snd).filter fun s => s.stateType = type

def initialStates (config : StateMachineConfig) : List StateDefinition := config.ofType .initial

def terminalStates (config : StateMachineConfig) : List StateDefinition := config.ofType .terminal

def intermediateStates (config : StateMachineConfig) : List StateDefinition :=
  config.ofType .intermediate

/-- config.states.get(name) -/
def state (config : StateMachineConfig) (name : String) : Option StateDefinition :=
  config.states.lookup name

/-- self._transition_map.get(name, []) -/
def outgoing (config : StateMachineConfig) (name : String) : List TransitionDefinition :=
  config.transitions.filter fun t => t.fromState = name

end StateMachineConfig

inductive Severity
  | error
  | warning
  deriving DecidableEq, Repr

structure ValidationError where
  field : String
  message : String
  severity : Severity := .error
  deriving DecidableEq, Repr

structure RuntimeState where
  currentState : String
  reentryCount : Int := 0
  iterationCount : Int := 0
  version : Int := 0
  driftCount : Int := 0
  humanApproved : Bool := false
  consecutiveFailures : Int := 0
  totalIterations : Int := 0
  changesRequested : Bool := false
  manualUnblock : Bool := false
  projectAbandoned : Bool := false
  deriving DecidableEq, Repr

/-- An entry of runtime_overrides: the attribute and its new value. -/
inductive Override
  | currentState (value : String)
  | reentryCount (value : Int)
  | iterationCount (value : Int)
  | version (value : Int)
  | driftCount (value : Int)
  | humanApproved (value : Bool)
  | consecutiveFailures (value : Int)
  | totalIterations (value : Int)
  | changesRequested (value : Bool)
  | manualUnblock (value : Bool)
  | projectAbandoned (value : Bool)
  deriving DecidableEq, Repr

def RuntimeState.override (rt : RuntimeState) : Override → RuntimeState
  | .currentState value => { rt with currentState := value }
  | .reentryCount value => { rt with reentryCount := value }
  | .iterationCount value => { rt with iterationCount := value }
  | .version value => { rt with version := value }
  | .driftCount value => { rt with driftCount := value }
  | .humanApproved value => { rt with humanApproved := value }
  | .consecutiveFailures value => { rt with consecutiveFailures := value }
  | .totalIterations value => { rt with totalIterations := value }
  | .changesRequested value => { rt with changesRequested := value }
  | .manualUnblock value => { rt with manualUnblock := value }
  | .projectAbandoned value => { rt with projectAbandoned := value }

end Prodinamik.Machine
