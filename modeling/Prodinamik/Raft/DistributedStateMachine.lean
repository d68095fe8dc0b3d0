import Mathlib.Data.Finset.Card
import Mathlib.Logic.Function.Basic
import Mathlib.Tactic.Simps.Basic
import Prodinamik.Lib.PyList
import Prodinamik.Raft.StateCRDT

namespace Prodinamik.Raft

open Lib

abbrev StateMap := String → Option NodeState

/-- The state a command leads to, given the state its slug is in. -/
def NodeState.after (state : NodeState) (command : Command) : NodeState :=
  if command.type = some "transition" then
    if truthy command.toState then ⟨command.toState.getD "", state.version + 1⟩ else state
  else if command.type = some "create" then ⟨command.initialState.getD "start", 1⟩
  else if command.type = some "archive" then ⟨"archived", state.version + 1⟩
  else state

/-- How a node keeps its state_machine dict. A node of its own process keeps
values; two nodes of one process may hold references to the same objects. -/
class StateStore (σ : Type) where
  applyCommand : σ → Command → σ
  values : σ → StateMap

def StateMap.applyCommand (states : StateMap) (command : Command) : StateMap :=
  if truthy command.slug then
    let slug := command.slug.getD ""
    Function.update states slug (some (((states slug).getD {}).after command))
  else states

instance : StateStore StateMap where
  applyCommand := StateMap.applyCommand
  values := id

/-- The two files a node keeps in its state_dir; none is a missing file. -/
structure StateDir where
  log : Option (List LogEntry) := none
  snapshot : Option StateMap := none

structure DistributedStateMachine (σ : Type) where
  nodeId : String
  peers : List String
  role : NodeRole
  currentTerm : Int
  votedFor : Option String
  log : List LogEntry
  commitIndex : Int
  lastApplied : Int
  stateMachine : σ
  transitions : StateCRDT.Transitions
  pendingAcks : Int → Finset String
  stateDir : StateDir

namespace DistributedStateMachine

def loadLog (dir : StateDir) : List LogEntry := dir.log.getD []

def loadSnapshot (dir : StateDir) : StateMap := dir.snapshot.getD fun _ => none

def init (nodeId : String) (peers : List String) (dir : StateDir) :
    DistributedStateMachine StateMap where
  nodeId := nodeId
  peers := peers
  role := .follower
  currentTerm := 0
  votedFor := none
  log := loadLog dir
  commitIndex := -1
  lastApplied := -1
  stateMachine := loadSnapshot dir
  transitions := []
  pendingAcks := fun _ => ∅
  stateDir := dir

variable {σ : Type} [StateStore σ]

@[simps] def saveLog (d : DistributedStateMachine σ) : DistributedStateMachine σ :=
  { d with stateDir := { d.stateDir with log := some d.log } }

def saveSnapshot (d : DistributedStateMachine σ) : DistributedStateMachine σ :=
  { d with stateDir := { d.stateDir with snapshot := some (StateStore.values d.stateMachine) } }

def lastLogTerm (d : DistributedStateMachine σ) : Int :=
  match d.log.getLast? with
  | some entry => entry.term
  | none => 0

@[simps] def becomeFollower (d : DistributedStateMachine σ) (term : Int) :
    DistributedStateMachine σ :=
  { d with role := .follower, currentTerm := term, votedFor := none }

/-- The index of the candidate's last entry is received and not looked at. -/
def requestVote (d : DistributedStateMachine σ) (candidateTerm : Int) (candidateId : String)
    (_lastLogIndex lastLogTerm : Int) : DistributedStateMachine σ × Bool :=
  if candidateTerm < d.currentTerm then (d, false)
  else
    let d := if candidateTerm > d.currentTerm then d.becomeFollower candidateTerm else d
    if (d.votedFor = none ∨ d.votedFor = some candidateId) ∧ lastLogTerm ≥ d.lastLogTerm then
      ({ d with votedFor := some candidateId }, true)
    else (d, false)

/-- The part of become_candidate before the peers are asked. -/
@[simps] def standForElection (d : DistributedStateMachine σ) : DistributedStateMachine σ :=
  { d with role := .candidate, currentTerm := d.currentTerm + 1, votedFor := some d.nodeId }

@[simps] def becomeLeader (d : DistributedStateMachine σ) : DistributedStateMachine σ :=
  { d with role := .leader }

/-- The part of become_candidate after the peers were asked. -/
def countVotes (d : DistributedStateMachine σ) (votes : Nat) : DistributedStateMachine σ :=
  if votes > d.peers.length / 2 then d.becomeLeader else d

def becomeCandidate (d : DistributedStateMachine σ) (grants : String → Bool) :
    DistributedStateMachine σ :=
  let d := d.standForElection
  d.countVotes (d.peers.foldl (fun votes peer => if grants peer then votes + 1 else votes) 1)

/-- The loop of _apply_committed. The flag is false when log[last_applied]
raised an IndexError; last_applied has been advanced by then. -/
def applyLoop : Nat → DistributedStateMachine σ → DistributedStateMachine σ × Bool
  | 0, d => (d, true)
  | k + 1, d =>
      let d := { d with lastApplied := d.lastApplied + 1 }
      match PyList.get d.log d.lastApplied with
      | none => (d, false)
      | some entry =>
          applyLoop k { d with stateMachine := StateStore.applyCommand d.stateMachine entry.command }

def applyCommitted (d : DistributedStateMachine σ) : DistributedStateMachine σ × Bool :=
  d.applyLoop (d.commitIndex - d.lastApplied).toNat

/-- self.commit_index = index, followed by self._apply_committed(). -/
def commitAt (d : DistributedStateMachine σ) (index : Int) : DistributedStateMachine σ × Bool :=
  { d with commitIndex := index }.applyCommitted

/-- The save and the return that follow a commit, unless it raised: then no
answer is given. -/
def finish {α : Type} (r : DistributedStateMachine σ × Bool) (answer : α) :
    DistributedStateMachine σ × Option α :=
  if r.2 then (r.1.saveLog, some answer) else (r.1, none)

/-- The term of the entry at prev_log_index when it is there and differs. -/
def conflictTerm (d : DistributedStateMachine σ) (prevLogIndex prevLogTerm : Int) : Option Int :=
  if 0 ≤ prevLogIndex ∧ prevLogIndex < d.log.length then
    match PyList.get d.log prevLogIndex with
    | some entry => if entry.term ≠ prevLogTerm then some entry.term else none
    | none => none
  else none

/-- The loop over the received entries. The flag is false when self.log[idx]
raised an IndexError, which needs an idx below zero. -/
def writeEntries : List LogEntry → Int → List LogEntry → List LogEntry × Bool
  | log, _, [] => (log, true)
  | log, idx, entry :: rest =>
      if idx < log.length then
        match PyList.get log idx with
        | none => (log, false)
        | some old =>
            if old.term ≠ entry.term then writeEntries (PyList.slice log idx ++ [entry]) (idx + 1) rest
            else writeEntries log (idx + 1) rest
      else writeEntries (log ++ [entry]) (idx + 1) rest

@[simps] def withLog (d : DistributedStateMachine σ) (log : List LogEntry) :
    DistributedStateMachine σ :=
  { d with log := log }

/-- No answer stands for an IndexError that reached the caller. -/
def appendEntries (d : DistributedStateMachine σ) (entries : List LogEntry)
    (prevLogIndex prevLogTerm leaderCommit : Int) :
    DistributedStateMachine σ × Option (Bool × Int × Int) :=
  match d.conflictTerm prevLogIndex prevLogTerm with
  | some term => (d, some (false, prevLogIndex, term))
  | none =>
      let written := writeEntries d.log (prevLogIndex + 1) entries
      let d := d.withLog written.1
      if written.2 then
        if leaderCommit > d.commitIndex then
          finish (d.commitAt (min leaderCommit (d.log.length - 1))) (true, 0, 0)
        else (d.saveLog, some (true, 0, 0))
      else (d, none)

def checkMajority (d : DistributedStateMachine σ) (index : Int) : Bool :=
  (d.pendingAcks index).card ≥ d.peers.length / 2 + 1

/-- The part of propose that logs the command and counts the leader's own
acknowledgment. -/
@[simps] def appendOwn (d : DistributedStateMachine σ) (command : Command) :
    DistributedStateMachine σ :=
  let index : Int := d.log.length
  let d := (d.withLog (d.log ++ [⟨d.currentTerm, index, command⟩])).saveLog
  { d with pendingAcks := Function.update d.pendingAcks index {d.nodeId} }

def propose (d : DistributedStateMachine σ) (command : Command) :
    DistributedStateMachine σ × Option (Bool × Option String) :=
  if d.role ≠ .leader then (d, some (false, some "Not leader"))
  else
    let index : Int := d.log.length
    let d := d.appendOwn command
    if d.checkMajority index then finish (d.commitAt index) (true, none)
    else (d, some (true, none))

@[simps] def recordAck (d : DistributedStateMachine σ) (index : Int) (peerId : String) :
    DistributedStateMachine σ :=
  { d with
    pendingAcks := Function.update d.pendingAcks index (insert peerId (d.pendingAcks index)) }

def ackEntry (d : DistributedStateMachine σ) (index : Int) (peerId : String) :
    DistributedStateMachine σ × Option Bool :=
  let d := d.recordAck index peerId
  if d.checkMajority index then
    if index > d.commitIndex then finish (d.commitAt index) true
    else (d, some true)
  else (d, some false)

/-- The part of _handle_raft_message that answers a Heartbeat. -/
def heartbeat (d : DistributedStateMachine σ) (leaderCommit : Int) :
    DistributedStateMachine σ × Bool :=
  if leaderCommit > d.commitIndex then d.commitAt (min leaderCommit (d.log.length - 1))
  else (d, true)

/-- Applying entries changes nothing but last_applied and the state map. -/
theorem applyLoop_frame (k : Nat) (d : DistributedStateMachine σ) :
    (d.applyLoop k).1 = { d with
      lastApplied := (d.applyLoop k).1.lastApplied
      stateMachine := (d.applyLoop k).1.stateMachine } := by
  induction k generalizing d with
  | zero => rfl
  | succ k ih =>
      simp only [applyLoop]
      cases PyList.get d.log (d.lastApplied + 1) with
      | none => rfl
      | some entry => rw [ih]

theorem commitAt_frame (d : DistributedStateMachine σ) (index : Int) :
    (d.commitAt index).1 = { d with
      commitIndex := index
      lastApplied := (d.commitAt index).1.lastApplied
      stateMachine := (d.commitAt index).1.stateMachine } :=
  applyLoop_frame _ { d with commitIndex := index }

/-- The loop applies the entries behind last_applied, in their order. -/
theorem applyLoop_fold (k : Nat) {d : DistributedStateMachine σ} (hlow : -1 ≤ d.lastApplied)
    (hk : d.lastApplied + k < d.log.length ∨ k = 0) :
    d.applyLoop k = ({ d with
      lastApplied := d.lastApplied + k
      stateMachine := ((d.log.drop (d.lastApplied + 1).toNat).take k).foldl
        (fun s entry => StateStore.applyCommand s entry.command) d.stateMachine }, true) := by
  induction k generalizing d with
  | zero => simp [applyLoop]
  | succ k ih =>
      have hlt : (d.lastApplied + 1).toNat < d.log.length := by omega
      have hget : PyList.get d.log (d.lastApplied + 1) = some d.log[(d.lastApplied + 1).toNat] := by
        rw [PyList.get_of_nonneg _ (by omega), List.getElem?_eq_getElem hlt]
      rw [applyLoop]
      simp only [hget]
      rw [ih (by simp only; omega) (by simp only; omega), List.drop_eq_getElem_cons hlt,
        List.take_succ_cons, List.foldl_cons]
      have hnext : (d.lastApplied + 1 + 1).toNat = (d.lastApplied + 1).toNat + 1 := by omega
      have hlast : d.lastApplied + 1 + (k : Int) = d.lastApplied + (k + 1 : Nat) := by omega
      simp only [hnext, hlast]

theorem commitAt_fold {d : DistributedStateMachine σ} {index : Int} (hlow : -1 ≤ d.lastApplied)
    (hindex : index < d.log.length) :
    d.commitAt index = ({ d with
      commitIndex := index
      lastApplied := max d.lastApplied index
      stateMachine := ((d.log.take (index + 1).toNat).drop (d.lastApplied + 1).toNat).foldl
        (fun s entry => StateStore.applyCommand s entry.command) d.stateMachine }, true) := by
  have hloop := applyLoop_fold (index - d.lastApplied).toNat (d := { d with commitIndex := index })
    hlow (by simp only; omega)
  have hlast : d.lastApplied + (index - d.lastApplied).toNat = max d.lastApplied index := by omega
  have hcount : (index - d.lastApplied).toNat =
      (index + 1).toNat - (d.lastApplied + 1).toNat := by omega
  rw [commitAt, applyCommitted, hloop]
  simp only
  rw [hlast, hcount, List.drop_take]

section CommitAt

variable (d : DistributedStateMachine σ) (index : Int)

@[simp] theorem commitAt_nodeId : (d.commitAt index).1.nodeId = d.nodeId := by
  rw [commitAt_frame]

@[simp] theorem commitAt_peers : (d.commitAt index).1.peers = d.peers := by
  rw [commitAt_frame]

@[simp] theorem commitAt_role : (d.commitAt index).1.role = d.role := by
  rw [commitAt_frame]

@[simp] theorem commitAt_currentTerm : (d.commitAt index).1.currentTerm = d.currentTerm := by
  rw [commitAt_frame]

@[simp] theorem commitAt_votedFor : (d.commitAt index).1.votedFor = d.votedFor := by
  rw [commitAt_frame]

@[simp] theorem commitAt_log : (d.commitAt index).1.log = d.log := by
  rw [commitAt_frame]

@[simp] theorem commitAt_commitIndex : (d.commitAt index).1.commitIndex = index := by
  rw [commitAt_frame]

@[simp] theorem commitAt_pendingAcks : (d.commitAt index).1.pendingAcks = d.pendingAcks := by
  rw [commitAt_frame]

@[simp] theorem commitAt_stateDir : (d.commitAt index).1.stateDir = d.stateDir := by
  rw [commitAt_frame]

end CommitAt

omit [StateStore σ] in
/-- Whatever saving the log leaves alone, finish leaves alone. -/
theorem finish_field {α β : Type} (field : DistributedStateMachine σ → β)
    (hfield : ∀ d : DistributedStateMachine σ, field d.saveLog = field d)
    (r : DistributedStateMachine σ × Bool) (answer : α) :
    field (finish r answer).1 = field r.1 := by
  rw [finish]
  cases r.2 with
  | false => rfl
  | true => exact hfield r.1

section Finish

omit [StateStore σ]

variable {α : Type} (r : DistributedStateMachine σ × Bool) (answer : α)

@[simp] theorem finish_nodeId : (finish r answer).1.nodeId = r.1.nodeId :=
  finish_field _ (fun _ => rfl) r answer

@[simp] theorem finish_peers : (finish r answer).1.peers = r.1.peers :=
  finish_field _ (fun _ => rfl) r answer

@[simp] theorem finish_role : (finish r answer).1.role = r.1.role :=
  finish_field _ (fun _ => rfl) r answer

@[simp] theorem finish_currentTerm : (finish r answer).1.currentTerm = r.1.currentTerm :=
  finish_field _ (fun _ => rfl) r answer

@[simp] theorem finish_votedFor : (finish r answer).1.votedFor = r.1.votedFor :=
  finish_field _ (fun _ => rfl) r answer

@[simp] theorem finish_log : (finish r answer).1.log = r.1.log :=
  finish_field _ (fun _ => rfl) r answer

@[simp] theorem finish_commitIndex : (finish r answer).1.commitIndex = r.1.commitIndex :=
  finish_field _ (fun _ => rfl) r answer

@[simp] theorem finish_lastApplied : (finish r answer).1.lastApplied = r.1.lastApplied :=
  finish_field _ (fun _ => rfl) r answer

@[simp] theorem finish_stateMachine : (finish r answer).1.stateMachine = r.1.stateMachine :=
  finish_field _ (fun _ => rfl) r answer

@[simp] theorem finish_pendingAcks : (finish r answer).1.pendingAcks = r.1.pendingAcks :=
  finish_field _ (fun _ => rfl) r answer

end Finish

/-- Entries that start at or behind the end of the log are appended, whatever
index they were announced with. -/
theorem writeEntries_append {log : List LogEntry} {idx : Int} (h : (log.length : Int) ≤ idx)
    (entries : List LogEntry) : writeEntries log idx entries = (log ++ entries, true) := by
  induction entries generalizing log idx with
  | nil => simp [writeEntries]
  | cons entry rest ih =>
      rw [writeEntries, if_neg (by omega), ih (by rw [List.length_append]; simp; omega)]
      simp

omit [StateStore σ] in
theorem conflictTerm_none {d : DistributedStateMachine σ} {prev term : Int}
    (h : d.conflictTerm prev term = none) (hprev : 0 ≤ prev) (hlt : prev < d.log.length) :
    ∃ entry, d.log[prev.toNat]? = some entry ∧ entry.term = term := by
  have hget : d.log[prev.toNat]? = some d.log[prev.toNat] := List.getElem?_eq_getElem (by omega)
  rw [conflictTerm, if_pos ⟨hprev, hlt⟩, PyList.get_of_nonneg _ hprev, hget] at h
  refine ⟨_, hget, ?_⟩
  by_contra hne
  simp [hne] at h

/-- Entries that are all there already, term by term, are not written. -/
theorem writeEntries_present {log : List LogEntry} {start : Int} {entries : List LogEntry}
    {n : Nat} (h : ∀ x ∈ entries.zipIdx n, ∃ old ∈ PyList.get log (start + x.2),
      old.term = x.1.term) : writeEntries log (start + n) entries = (log, true) := by
  induction entries generalizing n with
  | nil => rfl
  | cons entry rest ih =>
      obtain ⟨old, hold, hterm⟩ := h (entry, n) (by simp)
      have hrest := ih (n := n + 1) (fun x hx => h x (by simp [hx]))
      have hlt : start + n < log.length := by
        by_contra hge
        simp only [Option.mem_def] at hold
        rw [PyList.get_of_nonneg _ (by omega), List.getElem?_eq_none (by omega)] at hold
        cases hold
      simp only [Option.mem_def] at hold
      rw [writeEntries, if_pos hlt, hold]
      simp only [hterm, ne_eq, not_true_eq_false, if_false]
      rwa [Int.natCast_succ, ← Int.add_assoc] at hrest

theorem propose_role {d : DistributedStateMachine σ} (h : d.role = .leader) (command : Command) :
    (d.propose command).1.role = .leader := by
  rw [propose, if_neg (by simp [h])]
  simp only
  split <;> simp [h]

theorem propose_log {d : DistributedStateMachine σ} (h : d.role = .leader) (command : Command) :
    (d.propose command).1.log = d.log ++ [⟨d.currentTerm, d.log.length, command⟩] := by
  rw [propose, if_neg (by simp [h])]
  simp only
  split <;> simp

theorem appendEntries_log {d : DistributedStateMachine σ} {prev term commit : Int}
    {entries : List LogEntry} (h : d.conflictTerm prev term = none) :
    (d.appendEntries entries prev term commit).1.log = (writeEntries d.log (prev + 1) entries).1 := by
  rw [appendEntries, h]
  simp only
  split
  · split <;> simp
  · simp

/-- The part of a node that elections read and write. -/
structure Standing where
  nodeId : String
  peers : List String
  role : NodeRole
  currentTerm : Int
  votedFor : Option String

omit [StateStore σ] in
@[simps] def standing (d : DistributedStateMachine σ) : Standing :=
  ⟨d.nodeId, d.peers, d.role, d.currentTerm, d.votedFor⟩

section Standing

variable (d : DistributedStateMachine σ)

omit [StateStore σ] in
@[simp] theorem saveLog_standing : d.saveLog.standing = d.standing := rfl

omit [StateStore σ] in
@[simp] theorem withLog_standing (log : List LogEntry) : (d.withLog log).standing = d.standing := rfl

omit [StateStore σ] in
@[simp] theorem appendOwn_standing (command : Command) :
    (d.appendOwn command).standing = d.standing := rfl

omit [StateStore σ] in
@[simp] theorem recordAck_standing (index : Int) (peerId : String) :
    (d.recordAck index peerId).standing = d.standing := rfl

@[simp] theorem commitAt_standing (index : Int) : (d.commitAt index).1.standing = d.standing := by
  rw [commitAt_frame]
  rfl

omit [StateStore σ] in
@[simp] theorem finish_standing {α : Type} (r : DistributedStateMachine σ × Bool) (answer : α) :
    (finish r answer).1.standing = r.1.standing :=
  finish_field _ (fun _ => rfl) r answer

theorem propose_standing (command : Command) : (d.propose command).1.standing = d.standing := by
  rw [propose]
  split
  · rfl
  · simp only
    split
    · rw [finish_standing, commitAt_standing, appendOwn_standing]
    · rfl

theorem ackEntry_standing (index : Int) (peerId : String) :
    (d.ackEntry index peerId).1.standing = d.standing := by
  rw [ackEntry]
  split
  · split
    · rw [finish_standing, commitAt_standing, recordAck_standing]
    · rfl
  · rfl

theorem heartbeat_standing (leaderCommit : Int) :
    (d.heartbeat leaderCommit).1.standing = d.standing := by
  rw [heartbeat]
  split
  · exact commitAt_standing d _
  · rfl

theorem appendEntries_standing (entries : List LogEntry) (prev term commit : Int) :
    (d.appendEntries entries prev term commit).1.standing = d.standing := by
  rw [appendEntries]
  cases d.conflictTerm prev term with
  | some t => rfl
  | none =>
      simp only
      split
      · split <;> simp
      · simp

end Standing

/-- The part of a node that replication reads and writes. -/
structure Book where
  log : List LogEntry
  commitIndex : Int
  pendingAcks : Int → Finset String

omit [StateStore σ] in
@[simps] def book (d : DistributedStateMachine σ) : Book := ⟨d.log, d.commitIndex, d.pendingAcks⟩

theorem applyLoop_lastApplied (k : Nat) (d : DistributedStateMachine σ) :
    (d.applyLoop k).1.lastApplied ≤ d.lastApplied + k := by
  induction k generalizing d with
  | zero => simp [applyLoop]
  | succ k ih =>
      rw [applyLoop]
      simp only
      cases PyList.get d.log (d.lastApplied + 1) with
      | none => simp only; omega
      | some entry =>
          have h := ih { d with
            lastApplied := d.lastApplied + 1
            stateMachine := StateStore.applyCommand d.stateMachine entry.command }
          simp only at h ⊢
          omega

/-- What an operation leaves in the log, the commit index and the
acknowledgements; entries are applied up to the commit index only. -/
structure Books (applied : Int) (d : DistributedStateMachine σ) (log : List LogEntry)
    (commitIndex : Int) (pendingAcks : Int → Finset String) : Prop where
  book : d.book = ⟨log, commitIndex, pendingAcks⟩
  applied_le : d.lastApplied ≤ max applied commitIndex

omit [StateStore σ] in
theorem Books.applied {applied : Int} {d : DistributedStateMachine σ} {log : List LogEntry}
    {commitIndex : Int} {pendingAcks : Int → Finset String}
    (h : Books applied d log commitIndex pendingAcks) :
    d.lastApplied ≤ max applied d.commitIndex := by
  have hcommit : d.commitIndex = commitIndex := congrArg Book.commitIndex h.book
  rw [hcommit]
  exact h.applied_le

section Books

variable (d : DistributedStateMachine σ)

theorem commitAt_books (index : Int) :
    Books d.lastApplied (d.commitAt index).1 d.log index d.pendingAcks where
  book := by simp [DistributedStateMachine.book]
  applied_le := by
    have h := applyLoop_lastApplied (index - d.lastApplied).toNat { d with commitIndex := index }
    rw [commitAt, applyCommitted]
    simp only at h ⊢
    omega

omit [StateStore σ] in
theorem Books.finish {α : Type} {applied : Int}
    {r : DistributedStateMachine σ × Bool} {log : List LogEntry} {commitIndex : Int}
    {pendingAcks : Int → Finset String} (h : Books applied r.1 log commitIndex pendingAcks)
    (answer : α) : Books applied (finish r answer).1 log commitIndex pendingAcks where
  book := by
    rw [← h.book]
    simp [DistributedStateMachine.book]
  applied_le := by
    rw [finish_lastApplied]
    exact h.applied_le

theorem heartbeat_books (leaderCommit : Int) :
    Books d.lastApplied (d.heartbeat leaderCommit).1 d.log
      (if leaderCommit > d.commitIndex then min leaderCommit (d.log.length - 1) else d.commitIndex)
      d.pendingAcks := by
  rw [heartbeat]
  split
  · exact commitAt_books d _
  · exact ⟨rfl, le_max_left _ _⟩

theorem ackEntry_books (index : Int) (peerId : String) :
    Books d.lastApplied (d.ackEntry index peerId).1 d.log
      (if (d.recordAck index peerId).checkMajority index = true ∧ index > d.commitIndex then index
        else d.commitIndex)
      (d.recordAck index peerId).pendingAcks := by
  rw [ackEntry]
  by_cases hmaj : (d.recordAck index peerId).checkMajority index = true
  · by_cases hnew : index > d.commitIndex
    · rw [if_pos hmaj, recordAck_commitIndex, if_pos hnew, if_pos ⟨hmaj, hnew⟩]
      exact (commitAt_books (d.recordAck index peerId) index).finish _
    · rw [if_pos hmaj, recordAck_commitIndex, if_neg hnew, if_neg (fun h => hnew h.2)]
      exact ⟨rfl, le_max_left _ _⟩
  · rw [if_neg hmaj, if_neg (fun h => hmaj h.1)]
    exact ⟨rfl, le_max_left _ _⟩

theorem propose_books (h : d.role = .leader) (command : Command) :
    Books d.lastApplied (d.propose command).1 (d.log ++ [⟨d.currentTerm, d.log.length, command⟩])
      (if (d.appendOwn command).checkMajority d.log.length = true then d.log.length
        else d.commitIndex)
      (d.appendOwn command).pendingAcks := by
  rw [propose, if_neg (by simp [h])]
  simp only
  split
  · exact (commitAt_books (d.appendOwn command) _).finish _
  · exact ⟨rfl, le_max_left _ _⟩

theorem appendEntries_books {entries : List LogEntry} {prev term : Int} (commit : Int)
    {log : List LogEntry} (hnone : d.conflictTerm prev term = none)
    (hlog : writeEntries d.log (prev + 1) entries = (log, true)) :
    Books d.lastApplied (d.appendEntries entries prev term commit).1 log
      (if commit > d.commitIndex then min commit (log.length - 1) else d.commitIndex)
      d.pendingAcks := by
  rw [appendEntries, hnone, hlog]
  simp only [if_true, withLog_commitIndex, withLog_log]
  split
  · exact (commitAt_books (d.withLog log) _).finish _
  · exact ⟨rfl, le_max_left _ _⟩

end Books

/-- What request_vote does to the node it asks. -/
inductive VoteOutcome (d : DistributedStateMachine σ) (term : Int) (candidate : String)
    (lastTerm : Int) : DistributedStateMachine σ × Bool → Prop
  | refused : VoteOutcome d term candidate lastTerm (d, false)
  | steppedDown : d.currentTerm < term →
      VoteOutcome d term candidate lastTerm (d.becomeFollower term, false)
  | granted : term = d.currentTerm → (d.votedFor = none ∨ d.votedFor = some candidate) →
      d.lastLogTerm ≤ lastTerm →
      VoteOutcome d term candidate lastTerm ({ d with votedFor := some candidate }, true)
  | grantedAnew : d.currentTerm < term → d.lastLogTerm ≤ lastTerm →
      VoteOutcome d term candidate lastTerm
        ({ d.becomeFollower term with votedFor := some candidate }, true)

omit [StateStore σ] in
theorem requestVote_outcome (d : DistributedStateMachine σ) (term : Int) (candidate : String)
    (lastIndex lastTerm : Int) :
    VoteOutcome d term candidate lastTerm (d.requestVote term candidate lastIndex lastTerm) := by
  rw [requestVote]
  by_cases hlt : term < d.currentTerm
  · rw [if_pos hlt]
    exact .refused
  rw [if_neg hlt]
  by_cases hgt : term > d.currentTerm
  · simp only [if_pos hgt]
    split
    · rename_i h
      exact .grantedAnew hgt h.2
    · exact .steppedDown hgt
  · simp only [if_neg hgt]
    split
    · rename_i h
      exact .granted (by omega) h.1 h.2
    · exact .refused

omit [StateStore σ] in
theorem requestVote_newTerm {d : DistributedStateMachine σ} {term lastTerm : Int}
    (hterm : d.currentTerm < term) (hlog : d.lastLogTerm ≤ lastTerm) (candidate : String)
    (lastIndex : Int) : (d.requestVote term candidate lastIndex lastTerm).2 = true := by
  rw [requestVote, if_neg (by omega)]
  simp only [gt_iff_lt, hterm, if_true, becomeFollower_votedFor, true_or, true_and]
  rw [if_pos]
  exact hlog

end DistributedStateMachine

end Prodinamik.Raft
