import Mathlib.Data.Int.Notation

namespace Prodinamik.Raft

inductive NodeRole
  | follower
  | candidate
  | leader
  | offline
  | reconnecting
  deriving DecidableEq, Repr

/-- The keys of a command dict that the state machine reads. A key that is
absent from the dict is none. -/
structure Command where
  slug : Option String := none
  type : Option String := none
  toState : Option String := none
  initialState : Option String := none
  deriving DecidableEq, Repr

structure LogEntry where
  term : Int
  index : Int
  command : Command
  deriving DecidableEq, Repr

structure NodeState where
  currentState : String := ""
  version : Int := 0
  deriving DecidableEq, Repr

structure PendingOperation where
  command : Command
  localVersion : Int := 0
  applied : Bool := false
  deriving DecidableEq, Repr

/-- Python's truth value of a string that may be missing. -/
def truthy (s : Option String) : Bool := s.getD "" ≠ ""

end Prodinamik.Raft
