import Prodinamik.Raft.Transport

namespace Prodinamik.Raft

open DistributedStateMachine

/-- The nodes of a cluster: each one's peers are all the others, in any order. -/
structure Cluster where
  ids : List String
  peers : String → List String
  stateDirs : String → StateDir
  nodup : ids.Nodup
  others : ∀ i ∈ ids, (peers i).Perm (ids.erase i)

/-- A become_candidate call that holds its node's lock: the peers still to be
asked and the votes so far. -/
structure Ballot where
  awaiting : List String
  votes : Nat
  deriving DecidableEq, Repr

structure ClusterState where
  nodes : String → DistributedStateMachine StateMap
  elections : String → Option Ballot
  inFlight : List (String × RaftMessage)

/-- A message in flight is never taken out: it may arrive any number of times
or not at all. -/
inductive Action
  | standForElection (i : String)
  | askVote (i : String)
  | askVoteUnanswered (i : String)
  | countVotes (i : String)
  | deliver (p : String) (msg : RaftMessage)
  | propose (i : String) (command : Command)
  | ackEntry (i : String) (index : Nat) (p : String)
  | broadcastHeartbeat (i : String)
  deriving DecidableEq, Repr

def voteGranted : Option RaftMessage → Bool
  | some ⟨_, _, .requestVoteResponse granted⟩ => granted
  | _ => false

def toPeers (d : DistributedStateMachine StateMap) (msg : RaftMessage) :
    List (String × RaftMessage) :=
  d.peers.map fun peer => (peer, msg)

namespace ClusterState

def setNode (s : ClusterState) (i : String) (d : DistributedStateMachine StateMap) :
    ClusterState :=
  { s with nodes := Function.update s.nodes i d }

def setElection (s : ClusterState) (i : String) (ballot : Option Ballot) : ClusterState :=
  { s with elections := Function.update s.elections i ballot }

def send (s : ClusterState) (msgs : List (String × RaftMessage)) : ClusterState :=
  { s with inFlight := msgs ++ s.inFlight }

/-- The peer that become_candidate asks next. -/
def nextPeer (s : ClusterState) (i : String) : Option String :=
  (s.elections i).bind fun ballot => ballot.awaiting.head?

theorem mem_nextPeer {s : ClusterState} {i p : String} (h : p ∈ s.nextPeer i) :
    ∃ rest votes, s.elections i = some ⟨p :: rest, votes⟩ := by
  rw [nextPeer, Option.mem_def, Option.bind_eq_some_iff] at h
  obtain ⟨⟨awaiting, votes⟩, hb, hhead⟩ := h
  cases awaiting with
  | nil => cases hhead
  | cons q rest =>
      cases hhead
      exact ⟨rest, votes, hb⟩

def standings (s : ClusterState) : String → Standing := fun i => (s.nodes i).standing

@[simp] theorem setNode_standings (s : ClusterState) (i : String)
    (d : DistributedStateMachine StateMap) :
    (s.setNode i d).standings = Function.update s.standings i d.standing := by
  funext j
  by_cases hj : j = i
  · subst hj
    simp [standings, setNode]
  · simp [standings, setNode, hj]

@[simp] theorem setElection_standings (s : ClusterState) (i : String) (ballot : Option Ballot) :
    (s.setElection i ballot).standings = s.standings := rfl

@[simp] theorem send_standings (s : ClusterState) (msgs : List (String × RaftMessage)) :
    (s.send msgs).standings = s.standings := rfl

@[simp] theorem setNode_elections (s : ClusterState) (i : String)
    (d : DistributedStateMachine StateMap) : (s.setNode i d).elections = s.elections := rfl

@[simp] theorem setElection_elections (s : ClusterState) (i : String) (ballot : Option Ballot) :
    (s.setElection i ballot).elections = Function.update s.elections i ballot := rfl

@[simp] theorem send_elections (s : ClusterState) (msgs : List (String × RaftMessage)) :
    (s.send msgs).elections = s.elections := rfl

theorem setNode_standings_self (s : ClusterState) {i : String}
    {d : DistributedStateMachine StateMap} (h : d.standing = (s.nodes i).standing) :
    (s.setNode i d).standings = s.standings := by
  rw [setNode_standings, h]
  exact Function.update_eq_self i s.standings

def perform (s : ClusterState) : Action → ClusterState
  | .standForElection i =>
      (s.setNode i (s.nodes i).standForElection).setElection i (some ⟨(s.nodes i).peers, 1⟩)
  | .askVote i =>
      match s.elections i with
      | some ⟨p :: rest, votes⟩ =>
          let r := (s.nodes p).handleRaftMessage (s.nodes i).checkVote
          (s.setNode p r.1).setElection i
            (some ⟨rest, if voteGranted r.2 then votes + 1 else votes⟩)
      | _ => s
  | .askVoteUnanswered i =>
      match s.elections i with
      | some ⟨p :: rest, votes⟩ =>
          (s.setElection i (some ⟨rest, votes⟩)).send [(p, (s.nodes i).checkVote)]
      | _ => s
  | .countVotes i =>
      match s.elections i with
      | some ⟨_, votes⟩ =>
          let d := (s.nodes i).countVotes votes
          let s := (s.setNode i d).setElection i none
          if d.role = .leader then s.send (toPeers d d.doHeartbeat) else s
      | none => s
  | .deliver p msg => s.setNode p ((s.nodes p).deliver msg)
  | .propose i command =>
      let d := ((s.nodes i).propose command).1
      let s' := s.setNode i d
      if (s.nodes i).role = .leader then s'.send (toPeers d d.doReplicate) else s'
  | .ackEntry i index p => s.setNode i ((s.nodes i).ackEntry index p).1
  | .broadcastHeartbeat i => s.send (toPeers (s.nodes i) (s.nodes i).doHeartbeat)

def run (s : ClusterState) (actions : List Action) : ClusterState :=
  actions.foldl perform s

/-- Every action of the run meets P in the state it happens in. -/
def AlongRun (P : ClusterState → Action → Prop) (s : ClusterState) : List Action → Prop
  | [] => True
  | action :: actions => P s action ∧ AlongRun P (s.perform action) actions

instance decidableAlongRun (P : ClusterState → Action → Prop) [∀ s, DecidablePred (P s)] :
    ∀ (s : ClusterState) (actions : List Action), Decidable (s.AlongRun P actions)
  | _, [] => inferInstanceAs (Decidable True)
  | s, action :: actions =>
      have := decidableAlongRun P (s.perform action) actions
      inferInstanceAs (Decidable (P s action ∧ (s.perform action).AlongRun P actions))

theorem alongRun_append {P : ClusterState → Action → Prop} {s : ClusterState}
    {first later : List Action} :
    s.AlongRun P (first ++ later) ↔ s.AlongRun P first ∧ (s.run first).AlongRun P later := by
  induction first generalizing s with
  | nil => simp [AlongRun, run]
  | cons action first ih => simp only [List.cons_append, AlongRun, ih, and_assoc, run, List.foldl_cons]

end ClusterState

def RaftMessage.isHeartbeat (msg : RaftMessage) : Bool :=
  match msg.data with
  | .heartbeat _ => true
  | _ => false

namespace Cluster

variable (C : Cluster)

def start : ClusterState where
  nodes := fun i => init i (C.peers i) (C.stateDirs i)
  elections := fun _ => none
  inFlight := []

/-- What can happen next. A node that is inside become_candidate holds its
lock; only the handling of a heartbeat takes none. An acknowledgement comes
from a peer that holds the entry. -/
def Enabled (s : ClusterState) : Action → Prop
  | .standForElection i => i ∈ C.ids ∧ s.elections i = none
  | .askVote i => i ∈ C.ids ∧ ∃ p ∈ s.nextPeer i, s.elections p = none
  | .askVoteUnanswered i => i ∈ C.ids ∧ (s.nextPeer i).isSome
  | .countVotes i => i ∈ C.ids ∧ ∃ ballot ∈ s.elections i, ballot.awaiting = []
  | .deliver p msg => p ∈ C.ids ∧ (p, msg) ∈ s.inFlight ∧
      (s.elections p = none ∨ msg.isHeartbeat = true)
  | .propose i _ => i ∈ C.ids ∧ s.elections i = none
  | .ackEntry i index p => i ∈ C.ids ∧ s.elections i = none ∧ p ∈ (s.nodes i).peers ∧
      index < (s.nodes i).log.length ∧ (s.nodes p).log[index]? = (s.nodes i).log[index]?
  | .broadcastHeartbeat i => i ∈ C.ids

instance (s : ClusterState) : DecidablePred (C.Enabled s) := fun action => by
  cases action <;> unfold Enabled <;> infer_instance

end Cluster

end Prodinamik.Raft
