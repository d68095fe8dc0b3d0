import Prodinamik.Raft.DistributedStateMachine

namespace Prodinamik.Raft

inductive Payload
  | requestVote (lastLogIndex lastLogTerm : Int)
  | requestVoteResponse (voteGranted : Bool)
  | appendEntries (entries : List LogEntry) (prevLogIndex prevLogTerm leaderCommit : Int)
  | appendEntriesResponse (success : Bool) (conflictIndex conflictTerm : Int)
  | heartbeat (leaderCommit : Int)
  | heartbeatResponse (ok : Bool)
  deriving DecidableEq, Repr

structure RaftMessage where
  senderId : String
  term : Int
  data : Payload
  deriving DecidableEq, Repr

namespace DistributedStateMachine

variable {σ : Type} [StateStore σ]

/-- The message _check_vote sends to a peer with a registered transport. -/
def checkVote (d : DistributedStateMachine σ) : RaftMessage :=
  ⟨d.nodeId, d.currentTerm, .requestVote (d.log.length - 1) d.lastLogTerm⟩

/-- The message _do_heartbeat sends to every peer with a registered transport. -/
def doHeartbeat (d : DistributedStateMachine σ) : RaftMessage :=
  ⟨d.nodeId, d.currentTerm, .heartbeat d.commitIndex⟩

/-- The message _do_replicate sends: the whole log, announced as following
the last entry of that same log. -/
def doReplicate (d : DistributedStateMachine σ) : RaftMessage :=
  ⟨d.nodeId, d.currentTerm,
    .appendEntries d.log (d.log.length - 1) d.lastLogTerm d.commitIndex⟩

/-- No answer is sent for an unknown type, nor after an exception. -/
def handleRaftMessage (d : DistributedStateMachine σ) (msg : RaftMessage) :
    DistributedStateMachine σ × Option RaftMessage :=
  match msg.data with
  | .requestVote lastLogIndex lastLogTerm =>
      let r := d.requestVote msg.term msg.senderId lastLogIndex lastLogTerm
      (r.1, some ⟨r.1.nodeId, msg.term, .requestVoteResponse r.2⟩)
  | .appendEntries entries prevLogIndex prevLogTerm leaderCommit =>
      let r := d.appendEntries entries prevLogIndex prevLogTerm leaderCommit
      (r.1, r.2.map fun (success, conflictIndex, conflictTerm) =>
        ⟨r.1.nodeId, msg.term, .appendEntriesResponse success conflictIndex conflictTerm⟩)
  | .heartbeat leaderCommit =>
      let r := d.heartbeat leaderCommit
      (r.1, if r.2 then some ⟨r.1.nodeId, r.1.currentTerm, .heartbeatResponse true⟩ else none)
  | _ => (d, none)

def deliver (d : DistributedStateMachine σ) (msg : RaftMessage) : DistributedStateMachine σ :=
  (d.handleRaftMessage msg).1

end DistributedStateMachine

end Prodinamik.Raft
