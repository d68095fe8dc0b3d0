import Mathlib.Data.String.Basic
import Mathlib.Logic.Function.Basic

namespace Prodinamik.Safety

structure BusEvent where
  type : String
  sourceProfile : String
  sourceSlug : String
  traceId : String
  hopCount : Int := 0
  deriving DecidableEq, Repr

/-- The entries of cycle_warnings, with the time they were made at. -/
inductive CycleWarning
  | maxHops (traceId : String) (hopCount : Int) (lastType sourceSlug timestamp : String)
  | duplicate (traceId eventType : String) (hopCount : Int) (timestamp : String)
  | failed (traceId error : String) (timestamp : String)
  deriving DecidableEq, Repr

/-- The traces are a set of texts. -/
structure EventBus (H : Type) where
  subscribers : String → List H := fun _ => []
  cycleWarnings : List CycleWarning := []
  seenTraces : List String := []

namespace BusEvent

def traceKey (e : BusEvent) : String := e.traceId ++ ":" ++ e.type

end BusEvent

namespace EventBus

variable {H : Type}

def maxHops : Int := 5

/-- The bus and the calls of handlers that are handed to the event loop. -/
def emit (b : EventBus H) (e : BusEvent) (timestamp : String) :
    EventBus H × List (H × BusEvent) :=
  if e.hopCount ≥ maxHops then
    ({ b with cycleWarnings := b.cycleWarnings ++
        [.maxHops e.traceId e.hopCount e.type e.sourceSlug timestamp] }, [])
  else if e.traceKey ∈ b.seenTraces then
    ({ b with cycleWarnings := b.cycleWarnings ++
        [.duplicate e.traceId e.type e.hopCount timestamp] }, [])
  else
    ({ b with seenTraces := e.traceKey :: b.seenTraces },
      (b.subscribers e.type).map fun handler => (handler, e))

/-- A handler that raises leaves a warning. -/
def safeCall (b : EventBus H) (raised : Option String) (e : BusEvent) (timestamp : String) :
    EventBus H :=
  match raised with
  | none => b
  | some error =>
      { b with cycleWarnings := b.cycleWarnings ++ [.failed e.traceId error timestamp] }

def clearTraces (b : EventBus H) : EventBus H := { b with seenTraces := [] }

def subscribe (b : EventBus H) (eventType : String) (handler : H) : EventBus H :=
  { b with
    subscribers := Function.update b.subscribers eventType
      (b.subscribers eventType ++ [handler]) }

/-- The first subscription of the handler goes. -/
def unsubscribe [DecidableEq H] (b : EventBus H) (eventType : String) (handler : H) : EventBus H :=
  { b with
    subscribers := Function.update b.subscribers eventType
      ((b.subscribers eventType).erase handler) }

def hasCycles (b : EventBus H) : Bool := b.cycleWarnings.length > 0

end EventBus

end Prodinamik.Safety
