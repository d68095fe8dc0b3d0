import Mathlib.Data.List.Lex
import Mathlib.Data.List.Sort
import Mathlib.Data.String.Basic
import Prodinamik.Machine.Types

namespace Prodinamik.Machine.Validate

variable (config : StateMachineConfig)

/-- The variables that the depth-first search of _find_cycles works on. -/
structure Search where
  cycles : List (List String) := []
  visited : List String := []
  path : List String := []

/-- The rotation of a cycle that comes first. -/
def canonical (cycle : List String) : List String :=
  ((List.range cycle.length).map fun i => cycle.rotate i).foldl min cycle

def Search.record (s : Search) (cycle : List String) : Search :=
  let c := canonical cycle
  if c ∈ s.cycles.map fun known => known.take c.length then s
  else { s with cycles := s.cycles ++ [c] }

/-- A path never repeats a node, so the fuel bounds its length. -/
def dfs : Nat → Search → String → Search
  | 0, s, _ => s
  | fuel + 1, s, node =>
      if node ∈ s.path then s.record (s.path.drop (s.path.idxOf node))
      else if node ∈ s.visited then s
      else
        let s := { s with visited := node :: s.visited, path := s.path ++ [node] }
        let s := ((config.outgoing node).map (·.toState)).foldl (dfs fuel) s
        { s with path := s.path.dropLast }

/-- The states and the targets of the transitions. -/
def nodes : List String := config.states.map Prod.fst ++ config.transitions.map (·.toState)

def findCycles : List (List String) :=
  ((config.states.map Prod.fst).foldl (dfs config ((nodes config).length + 1)) {}).cycles

/-- The loop over the queue; every transition puts at most one state into it. -/
def reachLoop : Nat → List String → List String → List String
  | 0, _, reachable => reachable
  | _, [], reachable => reachable
  | fuel + 1, current :: queue, reachable =>
      if current ∈ reachable then reachLoop fuel queue reachable
      else
        let reachable := current :: reachable
        let targets := ((config.outgoing current).map (·.toState)).filter (· ∉ reachable)
        reachLoop fuel (queue ++ targets) reachable

def findReachableStates : List String :=
  reachLoop config (config.initialStates.length + config.transitions.length + 1)
    (config.initialStates.map (·.name)) []

/-- Each of the states that has no outgoing transition. -/
def withoutExit (states : List StateDefinition) (message : String → String) :
    List ValidationError :=
  (states.filter fun s => (config.outgoing s.name).isEmpty).map fun s =>
    { field := "states." ++ s.name, message := message s.name }

def initialStateErrors : List ValidationError :=
  withoutExit config config.initialStates fun name =>
    "Initial state '" ++ name ++ "' has no outgoing transitions"

def intermediateStateErrors : List ValidationError :=
  withoutExit config config.intermediateStates fun name =>
    "Intermediate state '" ++ name ++ "' has no exit transitions"

def terminalStateErrors : List ValidationError :=
  config.terminalStates.flatMap fun s =>
    (if (config.outgoing s.name).isEmpty then [] else
      [{ field := "states." ++ s.name
         message := "Terminal state '" ++ s.name ++ "' should have no outgoing transitions" }]) ++
    (if s.maxReentries = some 0 then [] else
      [{ field := "states." ++ s.name ++ ".max_reentries"
         message := "Terminal state '" ++ s.name ++ "' must have max_reentries=0" }])

def hasExit (cycle : List String) : Bool :=
  cycle.any fun node => (config.outgoing node).any fun t => t.toState ∉ cycle

def cycleExitErrors : List ValidationError :=
  let cycles := (findCycles config).filter fun c => c.length > 1
  ((cycles.insertionSort fun a b => a.length ≤ b.length).filter fun c => !hasExit config c).map
    fun c =>
      { field := "transitions"
        message := "Dead-end cycle detected: " ++ " → ".intercalate c ++
          ". All transitions in cycle point back into the cycle." }

def reachabilityErrors : List ValidationError :=
  (config.states.filter fun s =>
    s.1 ∉ findReachableStates config ∧ s.2.stateType ≠ .initial).map fun s =>
      { field := "states." ++ s.1
        message := "Unreachable state: '" ++ s.1 ++ "'. No path from any initial state." }

def maxReentriesErrors : List ValidationError :=
  (config.states.filter fun s =>
    s.2.maxReentries = none ∧ s.2.stateType ≠ .terminal ∧ s.2.stateType ≠ .error).map fun s =>
      { field := "states." ++ s.1 ++ ".max_reentries"
        message := "State '" ++ s.1 ++ "' missing max_reentries"
        severity := .warning }

def transitionTargetErrors : List ValidationError :=
  config.transitions.flatMap fun t =>
    let field := "transitions." ++ t.fromState ++ "→" ++ t.toState
    (if (config.state t.toState).isSome then [] else
      [{ field := field
         message := "Transition target '" ++ t.toState ++ "' not found in state definitions" }]) ++
    (if (config.state t.fromState).isSome then [] else
      [{ field := field
         message := "Transition source '" ++ t.fromState ++ "' not found in state definitions" }])

def validate : List ValidationError :=
  initialStateErrors config ++ intermediateStateErrors config ++ terminalStateErrors config ++
    cycleExitErrors config ++ reachabilityErrors config ++ maxReentriesErrors config ++
    transitionTargetErrors config

def critical : List ValidationError := (validate config).filter fun e => e.severity = .error

end Prodinamik.Machine.Validate
