import Prodinamik.Grid.AgentRegistry

namespace Prodinamik.Grid

open Lib

instance : Std.Total NodeInfo.LessLoaded := ⟨fun _ _ => Rat.le_total⟩

instance : IsTrans NodeInfo NodeInfo.LessLoaded := ⟨fun _ _ _ hab hbc => Rat.le_trans hab hbc⟩

namespace AgentRegistry

inductive Call
  | registerNode (nodeId : String) (capabilities : Option (List String)) (maxWorkers : Int)
  | unregisterNode (nodeId : String)
  | heartbeat (nodeId : String) (data : HeartbeatData) (now : Int)
  | markUnhealthy (nodeId : String)
  | cleanupStaleNodes (clock : Nat → Int)

def step (r : AgentRegistry) : Call → AgentRegistry
  | .registerNode nodeId capabilities maxWorkers => r.registerNode nodeId capabilities maxWorkers
  | .unregisterNode nodeId => r.unregisterNode nodeId
  | .heartbeat nodeId data now => (r.heartbeat nodeId data now).getD r
  | .markUnhealthy nodeId => r.markUnhealthy nodeId
  | .cleanupStaleNodes clock => r.cleanupStaleNodes clock

/-- The node is registered and lists the capability. -/
def Lists (r : AgentRegistry) (nodeId cap : String) : Prop :=
  ∃ n, r.getNode nodeId = some n ∧ cap ∈ n.capabilities

structure Indexed (r : AgentRegistry) : Prop where
  mem : ∀ cap nodeId, nodeId ∈ r.capabilityIndex cap ↔ r.Lists nodeId cap
  nodup : ∀ cap, (r.capabilityIndex cap).Nodup

theorem mem_addTo {nodes : List String} {nodeId n : String} :
    n ∈ addTo nodes nodeId ↔ n ∈ nodes ∨ n = nodeId := by
  rw [addTo]
  split
  case isTrue h => exact ⟨.inl, fun hn => hn.elim id fun heq => heq ▸ h⟩
  case isFalse => rw [List.mem_append, List.mem_singleton]

theorem nodup_addTo {nodes : List String} (h : nodes.Nodup) (nodeId : String) :
    (addTo nodes nodeId).Nodup := by
  rw [addTo]
  split
  case isTrue => exact h
  case isFalse hnew =>
    exact h.append (List.nodup_singleton nodeId) (List.disjoint_singleton.mpr hnew)

/-- The two set differences take the entries of one node from the old capabilities
to the new ones and leave the other nodes alone. -/
theorem mem_updateCapabilityIndex {index : String → List String} {nodeId : String}
    {oldCaps : List String} (hold : ∀ cap, nodeId ∈ index cap ↔ cap ∈ oldCaps)
    (newCaps : List String) (cap n : String) :
    n ∈ updateCapabilityIndex index nodeId oldCaps newCaps cap ↔
      if n = nodeId then cap ∈ newCaps else n ∈ index cap := by
  rw [updateCapabilityIndex]
  by_cases hn : n = nodeId
  · subst hn
    by_cases ho : cap ∈ oldCaps <;> by_cases hnew : cap ∈ newCaps <;>
      simp [ho, hnew, hold, mem_addTo]
  · by_cases ho : cap ∈ oldCaps <;> by_cases hnew : cap ∈ newCaps <;>
      simp [ho, hnew, hn, mem_addTo]

theorem nodup_updateCapabilityIndex {index : String → List String} {cap : String}
    (h : (index cap).Nodup) (nodeId : String) (oldCaps newCaps : List String) :
    (updateCapabilityIndex index nodeId oldCaps newCaps cap).Nodup := by
  rw [updateCapabilityIndex]
  split
  case isTrue => exact h.filter _
  case isFalse =>
    split
    case isTrue => exact nodup_addTo h nodeId
    case isFalse => exact h

theorem indexed_new (heartbeatTtl : Int) : (new heartbeatTtl).Indexed where
  mem cap nodeId := iff_of_false List.not_mem_nil fun ⟨_, hn, _⟩ => by cases hn
  nodup _ := List.nodup_nil

namespace Indexed

variable {r r' : AgentRegistry}

/-- A change of one node that the index follows. -/
theorem follow (h : r.Indexed) (nodeId : String) (oldCaps newCaps : List String)
    (hold : ∀ cap, r.Lists nodeId cap ↔ cap ∈ oldCaps)
    (hindex : r'.capabilityIndex =
      updateCapabilityIndex r.capabilityIndex nodeId oldCaps newCaps)
    (hnew : ∀ cap, r'.Lists nodeId cap ↔ cap ∈ newCaps)
    (hother : ∀ n, n ≠ nodeId → r'.getNode n = r.getNode n) : r'.Indexed where
  mem cap n := by
    rw [hindex, mem_updateCapabilityIndex (fun cap => (h.mem cap nodeId).trans (hold cap))]
    split
    case isTrue hn =>
      rw [hn]
      exact (hnew cap).symm
    case isFalse hn => rw [h.mem, Lists, Lists, hother n hn]
  nodup cap := by
    rw [hindex]
    exact nodup_updateCapabilityIndex (h.nodup cap) nodeId oldCaps newCaps

/-- A change of one node that leaves its capabilities alone. -/
theorem put (h : r.Indexed) {nodeId : String} {info info' : NodeInfo}
    (hget : r.nodes.get nodeId = some info) (hkey : info'.nodeId = info.nodeId)
    (hcaps : info'.capabilities = info.capabilities) :
    { r with nodes := r.nodes.put info' }.Indexed where
  mem cap n := by
    rw [h.mem, Lists, Lists, getNode, getNode, Table.get_put, hkey, Table.key_of_get hget]
    split
    case isTrue hn =>
      rw [hn, hget]
      simp [hcaps]
    case isFalse => rfl
  nodup := h.nodup

theorem registerNode (h : r.Indexed) (nodeId : String) (capabilities : Option (List String))
    (maxWorkers : Int) : (r.registerNode nodeId capabilities maxWorkers).Indexed := by
  rw [AgentRegistry.registerNode]
  cases hget : r.nodes.get nodeId with
  | none =>
      refine h.follow nodeId [] (capabilities.getD []) (fun cap => ?_) rfl
        (fun cap => ?_) fun n hn => ?_
      · simp [Lists, getNode, hget]
      · simp [Lists, getNode]
      · simp [getNode, Table.get_put, hn]
  | some existing =>
      have hkey : existing.nodeId = nodeId := Table.key_of_get hget
      refine h.follow nodeId existing.capabilities (capabilities.getD existing.capabilities)
        (fun cap => ?_) rfl (fun cap => ?_) fun n hn => ?_
      · simp [Lists, getNode, hget]
      · simp [Lists, getNode, hkey]
      · simp [getNode, Table.get_put, hkey, hn]

theorem unregisterNode (h : r.Indexed) (nodeId : String) : (r.unregisterNode nodeId).Indexed := by
  rw [AgentRegistry.unregisterNode]
  cases hget : r.nodes.get nodeId with
  | none => exact h
  | some info =>
      refine h.follow nodeId info.capabilities [] (fun cap => ?_) rfl (fun cap => ?_) fun n hn => ?_
      · simp [Lists, getNode, hget]
      · simp [Lists, getNode, Table.get_erase]
      · simp [getNode, Table.get_erase, hn]

theorem heartbeat (h : r.Indexed) (nodeId : String) (data : HeartbeatData) (now : Int) :
    ((r.heartbeat nodeId data now).getD r).Indexed := by
  rw [AgentRegistry.heartbeat]
  cases hget : r.nodes.get nodeId with
  | none => exact h
  | some info => exact h.put hget rfl rfl

theorem markUnhealthy (h : r.Indexed) (nodeId : String) : (r.markUnhealthy nodeId).Indexed := by
  rw [AgentRegistry.markUnhealthy]
  cases hget : r.nodes.get nodeId with
  | none => exact h
  | some info => exact h.put hget rfl rfl

theorem cleanupStaleNodes (h : r.Indexed) (clock : Nat → Int) :
    (r.cleanupStaleNodes clock).Indexed := by
  rw [AgentRegistry.cleanupStaleNodes]
  refine List.foldlRecOn _ _ h fun r' h' n _ => ?_
  split
  case h_1 => exact h'
  case h_2 =>
    split
    case isTrue => exact h'.unregisterNode _
    case isFalse => exact h'

theorem step (h : r.Indexed) (c : Call) : (r.step c).Indexed := by
  cases c with
  | registerNode nodeId capabilities maxWorkers => exact h.registerNode nodeId capabilities maxWorkers
  | unregisterNode nodeId => exact h.unregisterNode nodeId
  | heartbeat nodeId data now => exact h.heartbeat nodeId data now
  | markUnhealthy nodeId => exact h.markUnhealthy nodeId
  | cleanupStaleNodes clock => exact h.cleanupStaleNodes clock

theorem run (h : r.Indexed) (calls : List Call) : (calls.foldl AgentRegistry.step r).Indexed := by
  induction calls generalizing r with
  | nil => exact h
  | cons c calls ih => exact ih (h.step c)

end Indexed

section

variable {r : AgentRegistry} (h : r.Indexed) (tick : Tick)
include h

theorem mem_findByCapability (horder : ∀ l, (tick.order l).Perm l) {cap : String} {n : NodeInfo} :
    n ∈ r.findByCapability tick cap ↔
      r.getNode n.nodeId = some n ∧ cap ∈ n.capabilities ∧ r.usable tick n = true := by
  rw [findByCapability, List.mem_insertionSort, List.mem_filter, List.mem_filterMap]
  constructor
  · rintro ⟨⟨nodeId, hid, hget⟩, husable⟩
    obtain ⟨n', hget', hcap⟩ := (h.mem cap nodeId).mp ((horder _).mem_iff.mp hid)
    rw [getNode, hget] at hget'
    obtain rfl := Option.some.inj hget'
    rw [getNode, Table.key_of_get hget]
    exact ⟨hget, hcap, husable⟩
  · rintro ⟨hget, hcap, husable⟩
    exact ⟨⟨n.nodeId, (horder _).mem_iff.mpr ((h.mem cap n.nodeId).mpr ⟨n, hget, hcap⟩), hget⟩,
      husable⟩

theorem nodup_findByCapability (horder : ∀ l, (tick.order l).Perm l) (cap : String) :
    (r.findByCapability tick cap).Nodup := by
  refine (List.perm_insertionSort _ _).nodup_iff.mpr (List.Nodup.filter _ ?_)
  refine List.Nodup.filterMap (fun a b n ha hb => ?_) ((horder _).nodup_iff.mpr (h.nodup cap))
  exact (Table.key_of_get ha).symm.trans (Table.key_of_get hb)

end

def listedCalls : List Call :=
  [.registerNode "worker-1" (some ["llm", "llm"]) 2, .registerNode "worker-2" (some ["llm"]) 3,
    .heartbeat "worker-1" {} 7, .registerNode "worker-2" (some ["search"]) 0]

def listedTick : Tick := ⟨⟨8, ""⟩, "", List.reverse⟩

end AgentRegistry

end Prodinamik.Grid
