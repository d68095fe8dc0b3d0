import Mathlib.Data.List.Sort
import Mathlib.Data.Rat.Defs
import Prodinamik.Grid.Task
import Prodinamik.Lib.Table

namespace Prodinamik.Grid

open Lib

/-- What the surroundings answer while one decision is made: the clock, a
fresh uuid and the order in which a set is gone through. -/
structure Tick extends Moment where
  uuid : String
  order : List String → List String

structure NodeInfo where
  nodeId : String
  capabilities : List String := []
  maxWorkers : Int := 3
  activeWorkers : Int := 0
  lastHeartbeat : Option Int := none
  isHealthy : Bool := true
  deriving DecidableEq, Repr

namespace NodeInfo

def availableSlots (n : NodeInfo) : Int := max 0 (n.maxWorkers - n.activeWorkers)

def loadRatio (n : NodeInfo) : Rat := if 0 < n.maxWorkers then n.activeWorkers / n.maxWorkers else 0

def isAlive (n : NodeInfo) (ttl now : Int) : Bool :=
  match n.lastHeartbeat with
  | none => false
  | some last => now - last < ttl

def LessLoaded (a b : NodeInfo) : Prop := a.loadRatio ≤ b.loadRatio

instance : DecidableRel LessLoaded := fun a b =>
  inferInstanceAs (Decidable (a.loadRatio ≤ b.loadRatio))

end NodeInfo

/-- What a worker sends with its heartbeat; a key that is missing is none. -/
structure HeartbeatData where
  activeWorkers : Option Int := none
  workerSlotsAvailable : Option Int := none
  capabilities : Option (List String) := none
  maxWorkers : Option Int := none
  deriving DecidableEq, Repr

/-- A capability without nodes and one that is not in the index are the same. -/
structure AgentRegistry where
  heartbeatTtl : Int
  nodes : Table NodeInfo.nodeId
  capabilityIndex : String → List String

namespace AgentRegistry

def new (heartbeatTtl : Int) : AgentRegistry := ⟨heartbeatTtl, .empty, fun _ => []⟩

def getNode (r : AgentRegistry) (nodeId : String) : Option NodeInfo := r.nodes.get nodeId

def addTo (nodes : List String) (nodeId : String) : List String :=
  if nodeId ∈ nodes then nodes else nodes ++ [nodeId]

def updateCapabilityIndex (index : String → List String) (nodeId : String)
    (oldCaps newCaps : List String) (cap : String) : List String :=
  if cap ∈ oldCaps ∧ cap ∉ newCaps then (index cap).filter fun n => n ≠ nodeId
  else if cap ∈ newCaps ∧ cap ∉ oldCaps then addTo (index cap) nodeId
  else index cap

def registerNode (r : AgentRegistry) (nodeId : String) (capabilities : Option (List String))
    (maxWorkers : Int) : AgentRegistry :=
  match r.nodes.get nodeId with
  | some existing =>
      { r with
        nodes := r.nodes.put { existing with
          maxWorkers := if maxWorkers = 0 then existing.maxWorkers else maxWorkers
          capabilities := capabilities.getD existing.capabilities
          isHealthy := true }
        capabilityIndex := updateCapabilityIndex r.capabilityIndex nodeId existing.capabilities
          (capabilities.getD existing.capabilities) }
  | none =>
      { r with
        nodes := r.nodes.put {
          nodeId := nodeId
          capabilities := capabilities.getD []
          maxWorkers := if maxWorkers = 0 then 3 else maxWorkers }
        capabilityIndex :=
          updateCapabilityIndex r.capabilityIndex nodeId [] (capabilities.getD []) }

/-- heartbeat returns False where the result here is none. -/
def heartbeat (r : AgentRegistry) (nodeId : String) (data : HeartbeatData) (now : Int) :
    Option AgentRegistry :=
  (r.nodes.get nodeId).map fun info =>
    let active := data.activeWorkers.getD info.activeWorkers
    { r with
      nodes := r.nodes.put { info with
        lastHeartbeat := some now
        isHealthy := true
        activeWorkers := active
        maxWorkers := (data.workerSlotsAvailable.map fun slots => active + slots).getD
          info.maxWorkers } }

def markUnhealthy (r : AgentRegistry) (nodeId : String) : AgentRegistry :=
  match r.nodes.get nodeId with
  | none => r
  | some info => { r with nodes := r.nodes.put { info with isHealthy := false } }

def unregisterNode (r : AgentRegistry) (nodeId : String) : AgentRegistry :=
  match r.nodes.get nodeId with
  | none => r
  | some info =>
      { r with
        nodes := r.nodes.erase nodeId
        capabilityIndex := updateCapabilityIndex r.capabilityIndex nodeId info.capabilities [] }

/-- The nodes that have not been heard of for three times the time to live. -/
def cleanupStaleNodes (r : AgentRegistry) (clock : Nat → Int) : AgentRegistry :=
  r.nodes.rows.zipIdx.foldl
    (fun r' n =>
      match n.1.lastHeartbeat with
      | none => r'
      | some last =>
          if last ≠ 0 ∧ r.heartbeatTtl * 3 < clock n.2 - last then r'.unregisterNode n.1.nodeId
          else r')
    r

def usable (r : AgentRegistry) (tick : Tick) (n : NodeInfo) : Bool :=
  n.isAlive r.heartbeatTtl tick.time && n.isHealthy

def findByCapability (r : AgentRegistry) (tick : Tick) (capability : String) : List NodeInfo :=
  (((tick.order (r.capabilityIndex capability)).filterMap r.nodes.get).filter
    (r.usable tick)).insertionSort NodeInfo.LessLoaded

def findBestNode (r : AgentRegistry) (tick : Tick) (affinity capability : String) :
    Option String :=
  let matching :=
    if capability ≠ "" then r.findByCapability tick capability
    else if affinity ≠ "" then r.findByCapability tick affinity
    else []
  let candidates :=
    if matching = [] then
      r.nodes.rows.filter fun n => r.usable tick n && 0 < n.availableSlots
    else matching
  (candidates.insertionSort NodeInfo.LessLoaded).head?.map NodeInfo.nodeId

end AgentRegistry

end Prodinamik.Grid
