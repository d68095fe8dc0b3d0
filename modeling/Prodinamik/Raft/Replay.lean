import Prodinamik.Raft.DistributedStateMachine

namespace Prodinamik.Raft.Replay

open Lib DistributedStateMachine

inductive Op
  | propose (command : Command)
  | appendEntries (entries : List LogEntry) (prevLogIndex prevLogTerm leaderCommit : Int)
  | ackEntry (index : Int) (peerId : String)
  | heartbeat (leaderCommit : Int)
  | becomeCandidate (grants : String → Bool)
  | requestVote (candidateTerm : Int) (candidateId : String) (lastLogIndex lastLogTerm : Int)
  | saveSnapshot
  | restart

def step (d : DistributedStateMachine StateMap) : Op → DistributedStateMachine StateMap
  | .propose command => (d.propose command).1
  | .appendEntries entries prev term commit => (d.appendEntries entries prev term commit).1
  | .ackEntry index peerId => (d.ackEntry index peerId).1
  | .heartbeat commit => (d.heartbeat commit).1
  | .becomeCandidate grants => d.becomeCandidate grants
  | .requestVote term candidate lastIndex lastTerm =>
      (d.requestVote term candidate lastIndex lastTerm).1
  | .saveSnapshot => d.saveSnapshot
  | .restart => init d.nodeId d.peers d.stateDir

variable {σ : Type} [StateStore σ]

/-- Apply the commands of log[0..last] to a state map. -/
def replay (states : σ) (log : List LogEntry) (last : Int) : σ :=
  (log.take (last + 1).toNat).foldl (fun s entry => StateStore.applyCommand s entry.command) states

def Replayed (states : σ) (d : DistributedStateMachine σ) : Prop :=
  d.stateMachine = replay states d.log d.lastApplied

/-- What an operation must not meet for the state map to stay a replay of the
log: a received entry that contradicts an applied one, a majority for an index
behind the end of the log, and a snapshot that a restart would load under a
log it is then going to apply from its beginning. -/
def Admissible (d : DistributedStateMachine StateMap) : Op → Prop
  | .appendEntries entries prev term _ => d.conflictTerm prev term = none →
      (entries ≠ [] → -1 ≤ prev) ∧ ∀ (i : Nat) (entry old : LogEntry), entries[i]? = some entry →
        PyList.get d.log (prev + 1 + i) = some old → prev + 1 + i ≤ d.lastApplied →
          old.term = entry.term
  | .ackEntry index peerId => (d.recordAck index peerId).checkMajority index = true →
      d.commitIndex < index → index < d.log.length
  | .restart => loadSnapshot d.stateDir = fun _ => none
  | _ => True

def AdmissibleRun (d : DistributedStateMachine StateMap) : List Op → Prop
  | [] => True
  | op :: ops => Admissible d op ∧ AdmissibleRun (step d op) ops

/-- The invariant behind the replay: nothing is committed that was not
applied, and nothing was applied that the log does not hold. -/
structure Consistent (states : σ) (d : DistributedStateMachine σ) : Prop where
  replayed : Replayed states d
  low : -1 ≤ d.lastApplied
  high : d.lastApplied < d.log.length
  applied : d.commitIndex ≤ d.lastApplied

theorem replay_succ (states : σ) {log : List LogEntry} {last : Int} {entry : LogEntry}
    (hlast : -1 ≤ last) (h : PyList.get log (last + 1) = some entry) :
    replay states log (last + 1) =
      StateStore.applyCommand (replay states log last) entry.command := by
  rw [PyList.get_of_nonneg _ (by omega)] at h
  have hnat : (last + 1 + 1).toNat = (last + 1).toNat + 1 := by omega
  rw [replay, replay, hnat, List.take_add_one, h]
  simp

theorem applyLoop_replayed {states : σ} (k : Nat) {d : DistributedStateMachine σ}
    (h : Replayed states d) (hlow : -1 ≤ d.lastApplied) (hk : d.lastApplied + k < d.log.length) :
    Replayed states (d.applyLoop k).1 ∧ (d.applyLoop k).1.lastApplied = d.lastApplied + k ∧
      (d.applyLoop k).2 = true := by
  induction k generalizing d with
  | zero => exact ⟨h, by simp [applyLoop], rfl⟩
  | succ k ih =>
      obtain ⟨entry, hget⟩ : ∃ entry, PyList.get d.log (d.lastApplied + 1) = some entry := by
        rw [PyList.get_of_nonneg _ (by omega), List.getElem?_eq_getElem (by omega)]
        exact ⟨_, rfl⟩
      rw [applyLoop]
      simp only [hget]
      obtain ⟨hr, hl, hf⟩ := ih (d := { d with
          lastApplied := d.lastApplied + 1
          stateMachine := StateStore.applyCommand d.stateMachine entry.command })
        (by rw [Replayed, replay_succ states hlow hget, ← h]) (by simp; omega)
        (by simp; omega)
      exact ⟨hr, by rw [hl]; simp; omega, hf⟩

/-- Committing an index of the log applies exactly the entries up to it. -/
theorem commitAt_consistent {states : σ} {d : DistributedStateMachine σ}
    (h : Consistent states d) {index : Int} (hi : index < d.log.length) :
    Consistent states (d.commitAt index).1 ∧ (d.commitAt index).2 = true ∧
      (d.commitAt index).1.lastApplied = max d.lastApplied index := by
  have hlow := h.low
  have hhigh := h.high
  obtain ⟨hr, hl, hf⟩ := applyLoop_replayed (index - d.lastApplied).toNat
    (d := { d with commitIndex := index }) h.replayed hlow (by simp only; omega)
  have hlast : (d.commitAt index).1.lastApplied = max d.lastApplied index := by
    rw [commitAt, applyCommitted, hl]
    simp only
    omega
  refine ⟨⟨hr, ?_, ?_, ?_⟩, hf, hlast⟩
  · rw [hlast]; omega
  · rw [hlast, commitAt_log]; omega
  · rw [hlast, commitAt_commitIndex]; omega

theorem saveLog_consistent {states : σ} {d : DistributedStateMachine σ}
    (h : Consistent states d) : Consistent states d.saveLog :=
  ⟨h.replayed, h.low, h.high, h.applied⟩

theorem finish_consistent {α : Type} {states : σ} {r : DistributedStateMachine σ × Bool}
    (h : Consistent states r.1) (answer : α) : Consistent states (finish r answer).1 := by
  rw [finish]
  cases r.2 with
  | false => exact h
  | true => exact saveLog_consistent h

/-- A log that still begins with the applied entries is as good as the old one. -/
theorem withLog_consistent {states : σ} {d : DistributedStateMachine σ} (h : Consistent states d)
    (log : List LogEntry) (hlen : d.lastApplied < log.length)
    (htake : log.take (d.lastApplied + 1).toNat = d.log.take (d.lastApplied + 1).toNat) :
    Consistent states (d.withLog log) where
  replayed := by
    change d.stateMachine = replay states log d.lastApplied
    rw [replay, htake, h.replayed, replay]
  low := h.low
  high := hlen
  applied := h.applied

/-- Writing entries that agree with the first m ones of the log on their terms
leaves these alone. -/
theorem writeEntries_take (entries log : List LogEntry) (idx : Int) {m : Nat}
    (hidx : entries ≠ [] → 0 ≤ idx) (hm : m ≤ log.length)
    (hagree : ∀ (i : Nat) (entry old : LogEntry), entries[i]? = some entry →
      PyList.get log (idx + i) = some old → idx + i < m → old.term = entry.term) :
    (writeEntries log idx entries).1.take m = log.take m ∧
      m ≤ (writeEntries log idx entries).1.length ∧ (writeEntries log idx entries).2 = true := by
  induction entries generalizing log idx with
  | nil => exact ⟨rfl, hm, rfl⟩
  | cons entry rest ih =>
      replace hidx := hidx (List.cons_ne_nil entry rest)
      have hrest : ∀ {log' : List LogEntry}, log'.take m = log.take m → m ≤ log'.length →
          (writeEntries log' (idx + 1) rest).1.take m = log.take m ∧
            m ≤ (writeEntries log' (idx + 1) rest).1.length ∧
            (writeEntries log' (idx + 1) rest).2 = true := by
        intro log' htake hm'
        rw [← htake]
        apply ih log' (idx + 1) (fun _ => by omega) hm'
        intro i e old he hold hlt
        refine hagree (i + 1) e old he ?_ (by push_cast; omega)
        rw [PyList.get_of_nonneg _ (by omega)] at hold ⊢
        have hpos : (idx + ((i + 1 : Nat) : Int)).toNat = (idx + 1 + (i : Int)).toNat := by omega
        have hin : (idx + 1 + (i : Int)).toNat < m := by omega
        rw [hpos, ← List.getElem?_take_of_lt hin, ← htake, List.getElem?_take_of_lt hin, hold]
      rw [writeEntries]
      by_cases hin : idx < log.length
      · rw [if_pos hin, PyList.get_of_nonneg _ hidx, List.getElem?_eq_getElem (by omega)]
        simp only
        by_cases hterm : log[idx.toNat].term = entry.term
        · rw [if_neg (by simp [hterm])]
          exact hrest rfl hm
        · rw [if_pos hterm]
          have hle : m ≤ idx.toNat := by
            by_contra hlt
            refine hterm (hagree 0 entry log[idx.toNat] rfl ?_ (by omega))
            rw [PyList.get_of_nonneg _ (by omega), List.getElem?_eq_some_iff]
            exact ⟨by omega, by simp⟩
          rw [PyList.slice_of_nonneg _ hidx]
          apply hrest
          · rw [List.take_append_of_le_length (by rw [List.length_take]; omega), List.take_take,
              Nat.min_eq_left hle]
          · rw [List.length_append, List.length_take]
            omega
      · rw [if_neg hin]
        apply hrest
        · exact List.take_append_of_le_length hm
        · rw [List.length_append]
          omega

theorem appendEntries_consistent {states : σ} {d : DistributedStateMachine σ}
    (h : Consistent states d) {entries : List LogEntry} {prev term commit : Int}
    (hsafe : d.conflictTerm prev term = none → (entries ≠ [] → -1 ≤ prev) ∧
      ∀ (i : Nat) (entry old : LogEntry), entries[i]? = some entry →
        PyList.get d.log (prev + 1 + i) = some old → prev + 1 + i ≤ d.lastApplied →
          old.term = entry.term) :
    Consistent states (d.appendEntries entries prev term commit).1 := by
  have hlow := h.low
  have hhigh := h.high
  rw [appendEntries]
  cases hc : d.conflictTerm prev term with
  | some t => exact h
  | none =>
      obtain ⟨hprev, hagree⟩ := hsafe hc
      obtain ⟨htake, hlen, hflag⟩ := writeEntries_take (m := (d.lastApplied + 1).toNat)
        entries d.log (prev + 1) (fun hne => by have := hprev hne; omega) (by omega)
        (fun i entry old he hold hlt => hagree i entry old he hold (by omega))
      have hwritten := withLog_consistent h _ (by omega) htake
      simp only [hflag, if_true]
      split
      · apply finish_consistent
        exact (commitAt_consistent hwritten (by simp only [withLog_log]; omega)).1
      · exact saveLog_consistent hwritten

theorem appendOwn_consistent {states : σ} {d : DistributedStateMachine σ}
    (h : Consistent states d) (command : Command) : Consistent states (d.appendOwn command) := by
  have hlow := h.low
  have hhigh := h.high
  have hw := withLog_consistent h (d.log ++ [⟨d.currentTerm, d.log.length, command⟩])
    (by rw [List.length_append]; simp; omega) (List.take_append_of_le_length (by omega))
  exact ⟨hw.replayed, hw.low, hw.high, hw.applied⟩

theorem propose_consistent {states : σ} {d : DistributedStateMachine σ}
    (h : Consistent states d) (command : Command) :
    Consistent states (d.propose command).1 := by
  rw [propose]
  split
  · exact h
  · have happ := appendOwn_consistent h command
    simp only
    split
    · apply finish_consistent
      refine (commitAt_consistent happ ?_).1
      rw [appendOwn_log, saveLog_log, withLog_log, List.length_append, List.length_singleton]
      omega
    · exact happ

theorem ackEntry_consistent {states : σ} {d : DistributedStateMachine σ}
    (h : Consistent states d) {index : Int} {peerId : String}
    (hsafe : (d.recordAck index peerId).checkMajority index = true → d.commitIndex < index →
      index < d.log.length) :
    Consistent states (d.ackEntry index peerId).1 := by
  have hack : Consistent states (d.recordAck index peerId) :=
    ⟨h.replayed, h.low, h.high, h.applied⟩
  rw [ackEntry]
  split
  · rename_i hmaj
    split
    · rename_i hlt
      apply finish_consistent
      exact (commitAt_consistent hack (hsafe hmaj hlt)).1
    · exact hack
  · exact hack

theorem heartbeat_consistent {states : σ} {d : DistributedStateMachine σ}
    (h : Consistent states d) (commit : Int) : Consistent states (d.heartbeat commit).1 := by
  rw [heartbeat]
  split
  · exact (commitAt_consistent h (by omega)).1
  · exact h

theorem requestVote_consistent {states : σ} {d : DistributedStateMachine σ}
    (h : Consistent states d) (term : Int) (candidate : String) (lastIndex lastTerm : Int) :
    Consistent states (d.requestVote term candidate lastIndex lastTerm).1 := by
  have hkeep : ∀ e : DistributedStateMachine σ, e.stateMachine = d.stateMachine →
      e.log = d.log → e.lastApplied = d.lastApplied → e.commitIndex = d.commitIndex →
      Consistent states e := by
    intro e hs hl ha hc
    exact ⟨by rw [Replayed, hs, hl, ha]; exact h.replayed, ha ▸ h.low, by rw [ha, hl]; exact h.high,
      by rw [hc, ha]; exact h.applied⟩
  rw [requestVote]
  split
  · exact h
  · simp only
    split <;> split <;> exact hkeep _ rfl rfl rfl rfl

theorem becomeCandidate_consistent {states : σ} {d : DistributedStateMachine σ}
    (h : Consistent states d) (grants : String → Bool) :
    Consistent states (d.becomeCandidate grants) := by
  rw [becomeCandidate]
  simp only [countVotes]
  split <;> exact ⟨h.replayed, h.low, h.high, h.applied⟩

theorem init_consistent (nodeId : String) (peers : List String) {dir : StateDir}
    (h : loadSnapshot dir = fun _ => none) :
    Consistent (fun _ => none : StateMap) (init nodeId peers dir) where
  replayed := by simp [Replayed, init, replay, h]
  low := le_rfl
  high := by simp only [init]; omega
  applied := le_rfl

theorem step_consistent {d : DistributedStateMachine StateMap} {op : Op}
    (h : Consistent (fun _ => none) d) (hop : Admissible d op) :
    Consistent (fun _ => none) (step d op) := by
  cases op with
  | propose command => exact propose_consistent h command
  | appendEntries entries prev term commit => exact appendEntries_consistent h hop
  | ackEntry index peerId => exact ackEntry_consistent h hop
  | heartbeat commit => exact heartbeat_consistent h commit
  | becomeCandidate grants => exact becomeCandidate_consistent h grants
  | requestVote term candidate lastIndex lastTerm =>
      exact requestVote_consistent h term candidate lastIndex lastTerm
  | saveSnapshot => exact ⟨h.replayed, h.low, h.high, h.applied⟩
  | restart => exact init_consistent d.nodeId d.peers hop

/-- In a run of admissible operations from an empty state_dir, the state map is
the fold of the commands up to last_applied over the empty map. -/
theorem run_replayed (nodeId : String) (peers : List String) (ops : List Op)
    (h : AdmissibleRun (init nodeId peers {}) ops) :
    Replayed (fun _ => none : StateMap) (ops.foldl step (init nodeId peers {})) := by
  have hrun : ∀ (ops : List Op) (d : DistributedStateMachine StateMap),
      Consistent (fun _ => none) d → AdmissibleRun d ops →
      Consistent (fun _ => none) (ops.foldl step d) := by
    intro ops
    induction ops with
    | nil => exact fun d hd _ => hd
    | cons op ops ih => exact fun d hd hops => ih (step d op) (step_consistent hd hops.1) hops.2
  exact (hrun ops _ (init_consistent nodeId peers rfl) h).replayed

/-- After a restart the invariant holds exactly when no snapshot was loaded:
the log is applied again from its beginning, on top of what it already did. -/
theorem replayed_restart_iff (d : DistributedStateMachine StateMap) :
    Replayed (fun _ => none : StateMap) (step d .restart) ↔ Admissible d .restart := by
  simp [Replayed, step, init, replay, Admissible]

def exampleEntry : LogEntry := ⟨1, 0, { slug := some "a", type := some "create" }⟩

theorem run_replayed_without_snapshot :
    Replayed (fun _ => none : StateMap)
      ([Op.appendEntries [exampleEntry] (-1) 0 0, .restart, .heartbeat 0].foldl step
        (init "node-1" [] {})) :=
  run_replayed "node-1" [] _ ⟨fun _ => ⟨fun _ => le_rfl, fun i _ _ _ hold _ => by
    simp [PyList.get, init, loadLog] at hold⟩, rfl, trivial, trivial⟩

/-- A restart after save_snapshot: the map holds a run while last_applied
says that no entry was applied. -/
theorem not_replayed_after_snapshot :
    ¬ ∀ ops : List Op,
      Replayed (fun _ => none : StateMap) (ops.foldl step (init "node-1" [] {})) := by
  intro h
  have hrun := h [.appendEntries [exampleEntry] (-1) 0 0, .saveSnapshot, .restart]
  exact absurd (congrFun hrun "a") (by decide)

end Prodinamik.Raft.Replay
