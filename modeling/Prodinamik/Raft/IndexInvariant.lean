import Prodinamik.Lib.Run
import Prodinamik.Raft.LogMatching
import Prodinamik.Raft.Reconnect

namespace Prodinamik.Raft.IndexInvariant

open Lib DistributedStateMachine HybridConsensusNode

section Node

variable {σ : Type} [StateStore σ]

structure Indices (d : DistributedStateMachine σ) : Prop where
  applied : d.lastApplied ≤ d.commitIndex
  inside : d.commitIndex < d.log.length

structure Advances (d d' : DistributedStateMachine σ) : Prop where
  commit : d.commitIndex ≤ d'.commitIndex
  applied : d.lastApplied ≤ d'.lastApplied

/-- The indices are in order after an operation, none went down, and
_apply_committed stayed inside the log. -/
structure Steady (d : DistributedStateMachine σ) (r : DistributedStateMachine σ × Bool) : Prop where
  indices : Indices r.1
  advances : Advances d r.1
  completed : r.2 = true

inductive Call
  | propose (command : Command)
  | appendEntries (entries : List LogEntry) (prevLogIndex prevLogTerm leaderCommit : Int)
  | heartbeat (leaderCommit : Int)
  | ackEntry (index : Int) (peerId : String)

/-- The flag is false when _apply_committed raised an IndexError. -/
def Call.run (d : DistributedStateMachine σ) : Call → DistributedStateMachine σ × Bool
  | .propose command => ((d.propose command).1, (d.propose command).2.isSome)
  | .appendEntries entries prev term commit =>
      ((d.appendEntries entries prev term commit).1,
        (d.appendEntries entries prev term commit).2.isSome ||
          !(writeEntries d.log (prev + 1) entries).2)
  | .heartbeat commit => d.heartbeat commit
  | .ackEntry index peerId => ((d.ackEntry index peerId).1, (d.ackEntry index peerId).2.isSome)

/-- A message contradicts no entry it is compared with, or reaches up to the
commit index; a majority is for an entry of the log. -/
def Call.Allowed (d : DistributedStateMachine σ) : Call → Prop
  | .appendEntries entries prev term _ => d.conflictTerm prev term = none →
      (∀ (i : Nat) (entry old : LogEntry), entries[i]? = some entry →
        PyList.get d.log (prev + 1 + i) = some old → old.term = entry.term) ∨
      -1 ≤ prev ∧ d.commitIndex ≤ prev + entries.length
  | .ackEntry index peerId =>
      (d.recordAck index peerId).checkMajority index = true → index < d.log.length
  | _ => True

/-- The message follows a position of a log, or none. -/
def Call.Announced : Call → Prop
  | .appendEntries _ prev _ _ => -1 ≤ prev
  | _ => True

omit [StateStore σ] in
/-- Only the two indices an operation starts from matter. -/
theorem Steady.since {d d₀ : DistributedStateMachine σ} {r : DistributedStateMachine σ × Bool}
    (h : Steady d₀ r) (hcommit : d₀.commitIndex = d.commitIndex)
    (hlast : d₀.lastApplied = d.lastApplied) : Steady d r :=
  ⟨h.indices, ⟨hcommit ▸ h.advances.commit, hlast ▸ h.advances.applied⟩, h.completed⟩

omit [StateStore σ] in
theorem Steady.still {d d' : DistributedStateMachine σ} (h : Indices d)
    (hcommit : d'.commitIndex = d.commitIndex) (hlast : d'.lastApplied = d.lastApplied)
    (hlog : d.log.length ≤ d'.log.length) : Steady d (d', true) where
  indices := by
    refine ⟨?_, ?_⟩
    · rw [hlast, hcommit]
      exact h.applied
    · rw [hcommit]
      exact lt_of_lt_of_le h.inside (Int.ofNat_le.mpr hlog)
  advances := ⟨hcommit.ge, hlast.ge⟩
  completed := rfl

theorem commitAt_steady {d : DistributedStateMachine σ} {index : Int} (hlow : -1 ≤ d.lastApplied)
    (happlied : d.lastApplied ≤ d.commitIndex) (hindex : index < d.log.length)
    (hle : d.commitIndex ≤ index) : Steady d (d.commitAt index) := by
  rw [commitAt_fold hlow hindex]
  refine ⟨⟨?_, hindex⟩, ⟨hle, le_max_left _ _⟩, rfl⟩
  exact max_le (happlied.trans hle) le_rfl

omit [StateStore σ] in
theorem Steady.finish {α : Type} {d : DistributedStateMachine σ}
    {r : DistributedStateMachine σ × Bool} (h : Steady d r) (answer : α) :
    Steady d ((finish r answer).1, (finish r answer).2.isSome) := by
  rw [DistributedStateMachine.finish, if_pos h.completed]
  exact ⟨⟨h.indices.applied, h.indices.inside⟩, ⟨h.advances.commit, h.advances.applied⟩, rfl⟩

theorem heartbeat_steady {d : DistributedStateMachine σ} (hlow : -1 ≤ d.lastApplied)
    (h : Indices d) (commit : Int) : Steady d (d.heartbeat commit) := by
  have hinside := h.inside
  rw [heartbeat]
  split
  · exact commitAt_steady hlow h.applied (by omega) (by omega)
  · exact .still h rfl rfl le_rfl

theorem propose_steady {d : DistributedStateMachine σ} (hlow : -1 ≤ d.lastApplied)
    (h : Indices d) (command : Command) :
    Steady d ((d.propose command).1, (d.propose command).2.isSome) := by
  have hinside := h.inside
  rw [propose]
  split
  · exact .still h rfl rfl le_rfl
  · have hlen : (d.appendOwn command).log.length = d.log.length + 1 := List.length_append
    simp only
    split
    · have hcommit : Steady (d.appendOwn command) ((d.appendOwn command).commitAt d.log.length) :=
        commitAt_steady hlow h.applied (by omega) (by simpa using hinside.le)
      exact (hcommit.finish _).since rfl rfl
    · have hlog : d.log.length ≤ (d.appendOwn command).log.length := by omega
      exact .still h rfl rfl hlog

theorem ackEntry_steady {d : DistributedStateMachine σ} {index : Int} {peerId : String}
    (hlow : -1 ≤ d.lastApplied) (h : Indices d) (hallowed : (Call.ackEntry index peerId).Allowed d) :
    Steady d ((d.ackEntry index peerId).1, (d.ackEntry index peerId).2.isSome) := by
  rw [ackEntry]
  split
  · rename_i hmaj
    split
    · rename_i hnew
      have hcommit : Steady (d.recordAck index peerId) ((d.recordAck index peerId).commitAt index) :=
        commitAt_steady hlow h.applied (hallowed hmaj) hnew.le
      exact (hcommit.finish _).since rfl rfl
    · exact .still h rfl rfl le_rfl
  · exact .still h rfl rfl le_rfl

/-- Entries that contradict nothing they are compared with leave the log as it
is or make it longer. -/
theorem prefix_writeEntries {log : List LogEntry} {idx : Int} {entries : List LogEntry}
    (h : ∀ (i : Nat) (entry old : LogEntry), entries[i]? = some entry →
      PyList.get log (idx + i) = some old → old.term = entry.term) :
    log <+: (writeEntries log idx entries).1 := by
  induction entries generalizing idx with
  | nil => exact List.prefix_rfl
  | cons entry rest ih =>
      rcases lt_or_ge idx (log.length : Int) with hlt | hge
      · rw [writeEntries, if_pos hlt]
        cases hget : PyList.get log idx with
        | none => exact List.prefix_rfl
        | some old =>
            have hterm : old.term = entry.term := h 0 entry old rfl (by simpa using hget)
            simp only [hterm, ne_eq, not_true_eq_false, if_false]
            refine ih fun i e o he ho => h (i + 1) e o (by simpa using he) ?_
            rw [← ho]
            congr 1
            omega
      · rw [writeEntries_append hge]
        exact List.prefix_append _ _

omit [StateStore σ] in
theorem appendEntries_length {d : DistributedStateMachine σ} {entries : List LogEntry}
    {prev term commit : Int} (h : Indices d)
    (hallowed : (Call.appendEntries entries prev term commit).Allowed d)
    (hnone : d.conflictTerm prev term = none) :
    d.commitIndex < (writeEntries d.log (prev + 1) entries).1.length := by
  have hinside := h.inside
  have hkept (hagree : ∀ (i : Nat) (entry old : LogEntry), entries[i]? = some entry →
      PyList.get d.log (prev + 1 + i) = some old → old.term = entry.term) :
      d.commitIndex < (writeEntries d.log (prev + 1) entries).1.length := by
    have hlen := (prefix_writeEntries hagree).length_le
    omega
  rcases hallowed hnone with hagree | ⟨hprev, hreach⟩
  · exact hkept hagree
  · by_cases hconflict : ∃ i, ConflictAt d.log entries (prev + 1).toNat i
    · obtain ⟨i, hi⟩ := hconflict
      obtain ⟨old, entry, hold, -, -⟩ := id hi
      have hlt : (prev + 1).toNat + i < d.log.length := (List.getElem?_eq_some_iff.mp hold).1
      obtain ⟨written, hrun, hw⟩ := writeEntries_written d.log entries
        (show (prev + 1).toNat ≤ d.log.length by omega)
      rw [Int.toNat_of_nonneg (by omega)] at hrun
      rw [hrun, hw.length_of_conflict hi]
      omega
    · refine hkept fun i entry old hentry hold => ?_
      by_contra hne
      rw [PyList.get_of_nonneg _ (by omega)] at hold
      refine hconflict ⟨i, old, entry, ?_, hentry, hne⟩
      rw [← hold]
      congr 1
      omega

theorem appendEntries_steady {d : DistributedStateMachine σ} {entries : List LogEntry}
    {prev term commit : Int} (hlow : -1 ≤ d.lastApplied) (h : Indices d)
    (hallowed : (Call.appendEntries entries prev term commit).Allowed d) :
    Steady d ((Call.appendEntries entries prev term commit).run d) := by
  rw [Call.run, appendEntries]
  cases hnone : d.conflictTerm prev term with
  | some t => exact .still h rfl rfl le_rfl
  | none =>
      have hlen := appendEntries_length h hallowed hnone
      generalize writeEntries d.log (prev + 1) entries = written at hlen
      obtain ⟨log, done⟩ := written
      have hwrite : Steady d (d.withLog log, true) := ⟨⟨h.applied, hlen⟩, ⟨le_rfl, le_rfl⟩, rfl⟩
      cases done with
      | false => exact hwrite
      | true =>
          simp only [if_true, withLog_commitIndex, withLog_log]
          split
          · have hcommit : Steady (d.withLog log)
                ((d.withLog log).commitAt (min commit (log.length - 1))) :=
              commitAt_steady hlow h.applied (by rw [withLog_log]; omega)
                (by rw [withLog_commitIndex]; simp only at hlen; omega)
            have hdone := (hcommit.finish (true, (0 : Int), (0 : Int))).since
              (d := d) rfl rfl
            exact ⟨hdone.indices, hdone.advances, by simpa using hdone.completed⟩
          · exact ⟨⟨h.applied, hlen⟩, ⟨le_rfl, le_rfl⟩, rfl⟩

theorem Call.steady {d : DistributedStateMachine σ} (hlow : -1 ≤ d.lastApplied) (h : Indices d)
    {c : Call} (hallowed : c.Allowed d) : Steady d (c.run d) := by
  cases c with
  | propose command => exact propose_steady hlow h command
  | appendEntries entries prev term commit => exact appendEntries_steady hlow h hallowed
  | heartbeat commit => exact heartbeat_steady hlow h commit
  | ackEntry index peerId => exact ackEntry_steady hlow h hallowed

/-- A call that is not allowed leaves the commit index outside the log, or
moves it down. -/
theorem Call.allowed_of_steady {d : DistributedStateMachine σ} (h : Indices d) {c : Call}
    (hc : c.Announced) (hindices : Indices (c.run d).1) (hadvances : Advances d (c.run d).1) :
    c.Allowed d := by
  cases c with
  | propose command => trivial
  | heartbeat commit => trivial
  | ackEntry index peerId =>
      intro hmaj
      by_contra hge
      have hinside := h.inside
      have hbook := (ackEntry_books d index peerId).book
      rw [if_pos ⟨hmaj, by omega⟩] at hbook
      have hcommit : (d.ackEntry index peerId).1.commitIndex = index := congrArg Book.commitIndex hbook
      have hlog : (d.ackEntry index peerId).1.log = d.log := congrArg Book.log hbook
      have hin := hindices.inside
      simp only [Call.run, hcommit, hlog] at hin
      exact hge hin
  | appendEntries entries prev term commit =>
      intro hnone
      by_contra hbad
      rw [not_or] at hbad
      obtain ⟨hclash, hshort⟩ := hbad
      push Not at hclash hshort
      obtain ⟨i, entry, old, hentry, hold, hne⟩ := hclash
      have hprev : -1 ≤ prev := hc
      rw [PyList.get_of_nonneg _ (by omega)] at hold
      have hplace : (prev + 1 + i).toNat = (prev + 1).toNat + i := by omega
      rw [hplace] at hold
      have hlt : (prev + 1).toNat + i < d.log.length := (List.getElem?_eq_some_iff.mp hold).1
      obtain ⟨written, hrun, hw⟩ := writeEntries_written d.log entries
        (show (prev + 1).toNat ≤ d.log.length by omega)
      rw [Int.toNat_of_nonneg (by omega)] at hrun
      have hlen := hw.length_of_conflict ⟨old, entry, hold, hentry, hne⟩
      have hshort := hshort hprev
      have hlog : (d.appendEntries entries prev term commit).1.log = written := by
        rw [appendEntries_log hnone, hrun]
      have hin := hindices.inside
      have hup := hadvances.commit
      simp only [Call.run, hlog] at hin hup
      omega

end Node

theorem sendPending_steady {d : DistributedStateMachine Objects} (hlow : -1 ≤ d.lastApplied)
    (h : Indices d) (ops : List PendingOperation) :
    Steady d ((sendPending d ops).1, (sendPending d ops).2.2) := by
  induction ops generalizing d with
  | nil => exact .still h rfl rfl le_rfl
  | cons op ops ih =>
      rw [sendPending]
      split
      · exact ih hlow h
      · have hfirst := propose_steady hlow h op.command
        generalize d.propose op.command = r at hfirst ⊢
        obtain ⟨d', answer⟩ := r
        cases answer with
        | none => exact absurd hfirst.completed (by simp)
        | some answer =>
            have hrest := ih (hlow.trans hfirst.advances.applied) hfirst.indices
            exact ⟨hrest.indices, ⟨hfirst.advances.commit.trans hrest.advances.commit,
              hfirst.advances.applied.trans hrest.advances.applied⟩, hrest.completed⟩

/-- What reconnect leaves in the indices of the two nodes. -/
structure Copied (n leader : HybridConsensusNode)
    (r : HybridConsensusNode × HybridConsensusNode × Bool) : Prop where
  log : r.1.raft.log = leader.raft.log
  commitIndex : r.1.raft.commitIndex = leader.raft.log.length - 1
  lastApplied : r.1.raft.lastApplied = max n.raft.lastApplied (leader.raft.log.length - 1)
  leader : Steady leader.raft (r.2.1.raft, r.2.2)

theorem reconnect_copied {n leader : HybridConsensusNode} (hlow : -1 ≤ n.raft.lastApplied)
    (hleader : -1 ≤ leader.raft.lastApplied) (h : Indices leader.raft) :
    Copied n leader (n.reconnect leader) := by
  have hsend := sendPending_steady (d := leader.raft.onHeap (n.syncedObjects leader)) hleader
    ⟨h.applied, h.inside⟩ n.pending
  obtain ⟨dir, heq⟩ := reconnect_sent hlow hsend.completed
  rw [heq]
  exact ⟨rfl, rfl, rfl, ⟨⟨hsend.indices.applied, hsend.indices.inside⟩,
    ⟨hsend.advances.commit, hsend.advances.applied⟩, rfl⟩⟩

theorem Copied.steady_iff {n leader : HybridConsensusNode}
    {r : HybridConsensusNode × HybridConsensusNode × Bool} (hr : Copied n leader r)
    (h : Indices n.raft) :
    Indices r.1.raft ∧ Advances n.raft r.1.raft ↔
      n.raft.commitIndex < leader.raft.log.length := by
  constructor
  · rintro ⟨-, hup⟩
    have hcommit := hup.commit
    rw [hr.commitIndex] at hcommit
    omega
  · intro hlt
    have happlied := h.applied
    refine ⟨⟨?_, ?_⟩, ⟨?_, ?_⟩⟩
    · rw [hr.lastApplied, hr.commitIndex]
      omega
    · rw [hr.commitIndex, hr.log]
      omega
    · rw [hr.commitIndex]
      omega
    · rw [hr.lastApplied]
      exact le_max_left _ _

/-- A node that reconnects to itself finds nothing to merge. -/
def reconnectSelf (n : HybridConsensusNode) : HybridConsensusNode × Bool :=
  let (raft, synced) := n.raft.commitAt (n.raft.log.length - 1)
  if synced then
    let (raft, pending, sent) := sendPending raft n.pending
    if sent then
      ({ n with
        raft := { raft.saveSnapshot with role := .follower }, pending := [], isOffline := false },
        true)
    else ({ n with raft := raft, pending := pending }, false)
  else ({ n with raft := raft }, false)

theorem reconnectSelf_steady {n : HybridConsensusNode} (hlow : -1 ≤ n.raft.lastApplied)
    (h : Indices n.raft) : Steady n.raft ((reconnectSelf n).1.raft, (reconnectSelf n).2) := by
  have hinside := h.inside
  have hlast : (n.raft.log.length : Int) - 1 < n.raft.log.length := by omega
  have hcommit := commitAt_steady hlow h.applied hlast (by omega)
  rw [reconnectSelf]
  generalize n.raft.commitAt (n.raft.log.length - 1) = synced at hcommit ⊢
  obtain ⟨raft, done⟩ := synced
  have hsend := sendPending_steady (hlow.trans hcommit.advances.applied) hcommit.indices n.pending
  simp only
  rw [if_pos hcommit.completed]
  generalize sendPending raft n.pending = r at hsend ⊢
  obtain ⟨raft', pending, sent⟩ := r
  simp only
  rw [if_pos hsend.completed]
  exact ⟨⟨hsend.indices.applied, hsend.indices.inside⟩,
    ⟨hcommit.advances.commit.trans hsend.advances.commit,
      hcommit.advances.applied.trans hsend.advances.applied⟩, rfl⟩

section World

variable {ι : Type} [DecidableEq ι]

/-- The nodes of one process, by name. -/
abbrev World (ι : Type) := ι → HybridConsensusNode

inductive Op (ι : Type)
  | call (i : ι) (c : Call)
  | reconnect (i j : ι)

/-- All nodes see the objects that one of them has worked on. -/
def World.shared (w : World ι) (o : Objects) : World ι :=
  fun k => { w k with raft := (w k).raft.onHeap o }

def World.perform (w : World ι) : Op ι → World ι × Bool
  | .call i c =>
      let r := c.run (w i).raft
      (Function.update (w.shared r.1.stateMachine) i { w i with raft := r.1 }, r.2)
  | .reconnect i j =>
      if i = j then
        let r := reconnectSelf (w i)
        (Function.update (w.shared r.1.raft.stateMachine) i r.1, r.2)
      else
        let r := (w i).reconnect (w j)
        (Function.update (Function.update (w.shared r.1.raft.stateMachine) j r.2.1) i r.1, r.2.2)

def World.step (w : World ι) (op : Op ι) : World ι := (w.perform op).1

/-- No index went down, and no entry behind the end of the log was read. -/
structure Right (w : World ι) (op : Op ι) : Prop where
  advances : ∀ k, Advances (w k).raft (w.step op k).raft
  completed : (w.perform op).2 = true

def Op.Allowed (w : World ι) : Op ι → Prop
  | .call i c => c.Allowed (w i).raft
  | .reconnect i j => (w i).raft.commitIndex < (w j).raft.log.length

def Op.Announced : Op ι → Prop
  | .call _ c => c.Announced
  | .reconnect _ _ => True

structure Empty (d : DistributedStateMachine Objects) : Prop where
  log : d.log = []
  commitIndex : d.commitIndex = -1
  lastApplied : d.lastApplied = -1

theorem Empty.indices {d : DistributedStateMachine Objects} (h : Empty d) : Indices d where
  applied := by rw [h.lastApplied, h.commitIndex]
  inside := by
    rw [h.commitIndex, h.log]
    decide

def Ordered (w : World ι) : Prop := ∀ k, Indices (w k).raft

def Low (w : World ι) : Prop := ∀ k, -1 ≤ (w k).raft.lastApplied

theorem Right.low {w : World ι} {op : Op ι} (h : Right w op) (hlow : Low w) : Low (w.step op) :=
  fun k => (hlow k).trans (h.advances k).applied

omit [DecidableEq ι] in
theorem shared_steady {w : World ι} (h : Ordered w) (o : Objects) (k : ι) :
    Steady (w k).raft ((w.shared o k).raft, true) := .still (h k) rfl rfl le_rfl

/-- One node of the world works for itself. -/
theorem single_step {w : World ι} (h : Ordered w) {i : ι} {n : HybridConsensusNode}
    (hn : Steady (w i).raft (n.raft, true)) (o : Objects) (k : ι) :
    Steady (w k).raft ((Function.update (w.shared o) i n k).raft, true) := by
  by_cases hk : k = i
  · subst hk
    rw [Function.update_self]
    exact hn
  · rw [Function.update_of_ne hk]
    exact shared_steady h o k

theorem step_right {w : World ι} {op : Op ι} (hlow : Low w) (h : Ordered w)
    (hallowed : op.Allowed w) : Ordered (w.step op) ∧ Right w op := by
  suffices hall : (∀ k, Steady (w k).raft ((w.step op k).raft, true)) ∧ (w.perform op).2 = true by
    exact ⟨fun k => (hall.1 k).indices, fun k => (hall.1 k).advances, hall.2⟩
  cases op with
  | call i c =>
      have hc := Call.steady (hlow i) (h i) hallowed
      exact ⟨single_step h ⟨hc.indices, hc.advances, rfl⟩ _, hc.completed⟩
  | reconnect i j =>
      rw [World.step, World.perform]
      by_cases hij : i = j
      · have hself := reconnectSelf_steady (hlow i) (h i)
        rw [if_pos hij]
        exact ⟨single_step h ⟨hself.indices, hself.advances, rfl⟩ _, hself.completed⟩
      · have hcopy := reconnect_copied (hlow i) (hlow j) (h j)
        obtain ⟨hindices, hadvances⟩ := (hcopy.steady_iff (h i)).mpr hallowed
        rw [if_neg hij]
        refine ⟨?_, hcopy.leader.completed⟩
        intro k
        simp only
        by_cases hk : k = i
        · subst hk
          rw [Function.update_self]
          exact ⟨hindices, hadvances, rfl⟩
        · rw [Function.update_of_ne hk]
          exact single_step h ⟨hcopy.leader.indices, hcopy.leader.advances, rfl⟩ _ k

theorem allowed_of_right {w : World ι} {op : Op ι} (hlow : Low w) (h : Ordered w)
    (hop : op.Announced) (hordered : Ordered (w.step op)) (hright : Right w op) :
    op.Allowed w := by
  cases op with
  | call i c =>
      have hindices := hordered i
      have hadvances := hright.advances i
      rw [World.step, World.perform] at hindices hadvances
      simp only [Function.update_self] at hindices hadvances
      exact Call.allowed_of_steady (h i) hop hindices hadvances
  | reconnect i j =>
      by_cases hij : i = j
      · subst hij
        exact (h i).inside
      · have hindices := hordered i
        have hadvances := hright.advances i
        rw [World.step, World.perform, if_neg hij] at hindices hadvances
        simp only [Function.update_self] at hindices hadvances
        exact ((reconnect_copied (hlow i) (hlow j) (h j)).steady_iff (h i)).mp
          ⟨hindices, hadvances⟩

/-- The indices are in order after every step of a run, and no step moves them
down or reads past the log, when every step is allowed; and only then, where
the messages follow a position of a log. -/
theorem indices_always (w : World ι) (hempty : ∀ k, Empty (w k).raft) (ops : List (Op ι)) :
    (Run.Steps World.step (fun w op => op.Allowed w) w ops →
      Run.Along World.step Ordered Right w ops) ∧
    ((∀ op ∈ ops, op.Announced) → Run.Along World.step Ordered Right w ops →
      Run.Steps World.step (fun w op => op.Allowed w) w ops) := by
  have hlow : Low w := fun k => (hempty k).lastApplied.ge
  have hordered : Ordered w := fun k => (hempty k).indices
  constructor
  · intro hsteps
    have hstep : ∀ (w : World ι) (op : Op ι), Low w ∧ Ordered w → op.Allowed w →
        Low (w.step op) ∧ Ordered (w.step op) := by
      intro w op hw hop
      obtain ⟨hnext, hright⟩ := step_right hw.1 hw.2 hop
      exact ⟨hright.low hw.1, hnext⟩
    have hrun := Run.along_of_invariant hstep ⟨hlow, hordered⟩ hsteps
    exact hrun.imp (fun w hw => hw.2) fun w op hw => (step_right hw.1.1 hw.1.2 hw.2).2
  · intro hannounced halong
    refine Run.steps_of_along Low ?_ hlow hannounced halong
    intro w op hlow h hop hnext hright
    exact ⟨hright.low hlow, allowed_of_right hlow h hop hnext hright⟩

end World

/-- The first node of a process that has its own log to itself leads it. -/
def started (nodeId : String) : HybridConsensusNode :=
  { stored nodeId [] (if nodeId = "a" then .leader else .follower) ⟨fun _ => {}, 0, fun _ => none⟩
    with raft.peers := [] }

theorem started_empty (nodeId : String) : Empty (started nodeId).raft := ⟨rfl, rfl, rfl⟩

def create : Op String := .call "a" (.propose ⟨some "essay", some "create", none, none⟩)

theorem indices_always_started :
    Run.Along World.step Ordered Right started [create, .call "b" (.heartbeat 3), create] :=
  (indices_always started started_empty [create, .call "b" (.heartbeat 3), create]).1
    ⟨trivial, trivial, trivial, trivial, trivial, trivial, trivial⟩

/-- An acknowledgment commits an entry that the log does not have. -/
theorem indices_fail_on_ack :
    (∀ nodeId, Empty (started nodeId).raft) ∧
      ¬ Run.Along World.step Ordered Right started [.call "a" (.ackEntry 0 "b")] := by
  refine ⟨started_empty, ?_⟩
  rintro ⟨hordered, hright, hnext⟩
  have hlow : Low started := fun k => (started_empty k).lastApplied.ge
  have hallowed : Op.Allowed started (.call "a" (.ackEntry 0 "b")) :=
    allowed_of_right hlow hordered trivial hnext hright
  exact absurd (hallowed (by decide)) (by decide)

end Prodinamik.Raft.IndexInvariant
