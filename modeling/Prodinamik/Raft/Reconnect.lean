import Prodinamik.Raft.Objects

namespace Prodinamik.Raft

open Lib DistributedStateMachine

structure HybridConsensusNode where
  raft : DistributedStateMachine Objects
  pending : List PendingOperation
  isOffline : Bool

namespace DistributedStateMachine

/-- The node of one process after another node of it has worked on the objects. -/
@[simps] def onHeap (d : DistributedStateMachine Objects) (o : Objects) :
    DistributedStateMachine Objects :=
  { d with stateMachine := o.under d.stateMachine.refs }

def getState (d : DistributedStateMachine Objects) (slug : String) : Option NodeState :=
  d.stateMachine.lookup slug

def provideMerge (d : DistributedStateMachine Objects) (slug : String) (merged : Option Nat) :
    DistributedStateMachine Objects :=
  if d.role ≠ .leader then d
  else
    { d with stateMachine :=
        d.stateMachine.under (Function.update d.stateMachine.refs slug merged) }.saveSnapshot

end DistributedStateMachine

namespace HybridConsensusNode

/-- A command without a slug is answered with an empty state and not kept. -/
def applyPending (n : HybridConsensusNode) (command : Command) : HybridConsensusNode :=
  if truthy command.slug then
    let slug := command.slug.getD ""
    let o := n.raft.stateMachine.ensure slug
    let oldVersion := ((o.lookup slug).getD {}).version
    let o :=
      if command.type = some "transition" then
        o.mutate slug fun state =>
          ⟨command.toState.getD state.currentState, state.version + 1⟩
      else o
    { n with
      raft := { n.raft with stateMachine := o }
      pending := n.pending ++ [⟨command, oldVersion, false⟩] }
  else n

def apply (n : HybridConsensusNode) (command : Command) :
    HybridConsensusNode × Option (Bool × Option String) :=
  if n.isOffline then (n.applyPending command, some (true, none))
  else
    let (raft, answer) := n.raft.propose command
    ({ n with raft := raft }, answer)

/-- The loop of step 2 over the pending operations. The flag is false when a
proposal raised. -/
def sendPending (leader : DistributedStateMachine Objects) :
    List PendingOperation → DistributedStateMachine Objects × List PendingOperation × Bool
  | [] => (leader, [], true)
  | op :: ops =>
      if op.applied then
        let (leader, rest, done) := sendPending leader ops
        (leader, op :: rest, done)
      else
        match leader.propose op.command with
        | (leader, none) => (leader, op :: ops, false)
        | (leader, some (success, _)) =>
            let (leader, rest, done) := sendPending leader ops
            (leader, (if success then { op with applied := true } else op) :: rest, done)

/-- The body of the loop of step 3: the value that wins is put in the leader's
dict when it is not equal to the local one. -/
def mergeOne (local_ : DistributedStateMachine Objects) (leader : DistributedStateMachine Objects)
    (op : PendingOperation) : DistributedStateMachine Objects :=
  if truthy op.command.slug then
    let slug := op.command.slug.getD ""
    match (local_.onHeap leader.stateMachine).getState slug, leader.getState slug with
    | some here, some remote =>
        if here.version ≠ remote.version then
          let merged := StateCRDT.merge here remote local_.transitions
          if merged ≠ here then
            leader.provideMerge slug
              (if StateCRDT.keepsRemote here remote local_.transitions then
                leader.stateMachine.refs slug
              else local_.stateMachine.refs slug)
          else leader
        else leader
    | _, _ => leader
  else leader

/-- reconnect, with the leader it is called with and whether it returned. -/
def reconnect (n leader : HybridConsensusNode) :
    HybridConsensusNode × HybridConsensusNode × Bool :=
  let (raft, synced) := (n.raft.withLog leader.raft.log).commitAt (leader.raft.log.length - 1)
  let n := { n with raft := raft }
  let leaderRaft := leader.raft.onHeap raft.stateMachine
  if synced then
    let (leaderRaft, pending, sent) := sendPending leaderRaft n.pending
    if sent then
      let leaderRaft := pending.foldl (mergeOne raft) leaderRaft
      let raft := { raft with stateMachine := leaderRaft.stateMachine }.saveSnapshot
      ({ n with raft := { raft with role := .follower }, pending := [], isOffline := false },
        { leader with raft := leaderRaft }, true)
    else
      ({ n with raft := raft.onHeap leaderRaft.stateMachine, pending := pending },
        { leader with raft := leaderRaft }, false)
  else (n, { leader with raft := leaderRaft }, false)

/-- The leader commits its whole log and the node receives what it lacks. -/
def catchUp (n leader : HybridConsensusNode) : HybridConsensusNode × HybridConsensusNode :=
  let leaderRaft := (leader.raft.commitAt (leader.raft.log.length - 1)).1
  let raft := n.raft.onHeap leaderRaft.stateMachine
  let raft := (raft.appendEntries (leaderRaft.log.drop raft.log.length) (raft.log.length - 1)
    raft.lastLogTerm leaderRaft.commitIndex).1
  ({ n with raft := raft }, { leader with raft := leaderRaft.onHeap raft.stateMachine })

/-- The commands of a log, as the nodes apply them. -/
def commands (log : List LogEntry) : List Command := log.map LogEntry.command

def pendingCommands (n : HybridConsensusNode) : List Command := n.pending.map (·.command)

/-- Every buffered operation is in the leader's log once more than before or
still pending, and once the node has caught up its values are those that the
leader's log leads to. -/
def ReconnectSafe (n leader : HybridConsensusNode) : Prop :=
  let r := n.reconnect leader
  (∀ command, (commands r.2.1.raft.log).count command + (r.1.pendingCommands).count command =
    (commands leader.raft.log).count command + n.pendingCommands.count command) ∧
  ∀ slug, (r.1.catchUp r.2.1).1.raft.getState slug =
    SlugHistory.run none (SlugHistory.ofSlug (commands r.2.1.raft.log) slug)

/-- Two nodes of one process, and nothing that the first has buffered was sent
yet. Objects that both dicts hold come from an earlier reconnect, which shares
them slug by slug. -/
structure Ready (n leader : HybridConsensusNode) : Prop where
  unsent : ∀ op ∈ n.pending, op.applied = false
  sameHeap : leader.raft.stateMachine = n.raft.stateMachine.under leader.raft.stateMachine.refs
  separate : Objects.Separate n.raft.stateMachine
  alongside : Objects.Alongside leader.raft.stateMachine.refs n.raft.stateMachine
  injective : ∀ s t r, leader.raft.stateMachine.refs s = some r →
    leader.raft.stateMachine.refs t = some r → s = t
  nodeLow : -1 ≤ n.raft.lastApplied
  leaderLow : -1 ≤ leader.raft.lastApplied

section Condition

open SlugHistory

variable (n leader : HybridConsensusNode)

/-- The leader's value of a slug after step 1, in which the node applies the
copied log to objects that may be the leader's. -/
def shared (slug : String) : Option NodeState :=
  (leader.raft.getState slug).map fun state =>
    if leader.raft.stateMachine.refs slug = n.raft.stateMachine.refs slug then
      ((ofSlug ((commands leader.raft.log).drop (n.raft.lastApplied + 1).toNat) slug).takeWhile
        Command.inPlace).foldl NodeState.after state
    else state

/-- The log the leader has when it accepts what is pending. -/
def fullLog : List Command := commands leader.raft.log ++ n.pendingCommands

/-- What the node gets from the leader's dict, at the time it applies the
pending commands itself: the leader has gone through all of them when it
commits them at once, and otherwise works on the objects it shares until it
replaces them. -/
def handedOver (slug : String) : Option NodeState :=
  let unapplied := ofSlug ((n.fullLog leader).drop (leader.raft.lastApplied + 1).toNat) slug
  if leader.raft.peers.length ≤ 1 ∧ n.pending ≠ [] then run (n.shared leader slug) unapplied
  else (n.shared leader slug).map fun state =>
    (unapplied.takeWhile Command.inPlace).foldl NodeState.after state

/-- How much of the log the node counts as applied after step 1. -/
def counted : Nat := max (n.raft.lastApplied + 1).toNat leader.raft.log.length

/-- The condition under which reconnecting is safe. -/
def Faithful : Prop :=
  (n.pending = [] ∨ leader.raft.role = .leader) ∧
  ∀ slug, SameFrom (ofSlug ((n.fullLog leader).drop (n.counted leader)) slug)
    (n.handedOver leader slug)
    (run none (ofSlug ((n.fullLog leader).take (n.counted leader)) slug))

end Condition

/-- The ordinary case: the node knows of nothing the leader has not, and the
leader has applied its whole log, on objects of its own. -/
structure Settled (n leader : HybridConsensusNode) : Prop where
  notAhead : n.raft.lastApplied < leader.raft.log.length
  applied : leader.raft.lastApplied = leader.raft.log.length - 1
  replayed : ∀ slug, leader.raft.getState slug =
    SlugHistory.run none (SlugHistory.ofSlug (commands leader.raft.log) slug)
  own : ∀ slug, leader.raft.stateMachine.refs slug = n.raft.stateMachine.refs slug →
    leader.raft.stateMachine.refs slug = none

theorem commands_append (xs ys : List LogEntry) : commands (xs ++ ys) = commands xs ++ commands ys :=
  List.map_append

@[simp] theorem commands_length (log : List LogEntry) : (commands log).length = log.length :=
  List.length_map _

theorem foldl_commands (o : Objects) (log : List LogEntry) :
    log.foldl (fun o entry => StateStore.applyCommand o entry.command) o =
      (commands log).foldl Objects.applyCommand o := List.foldl_map.symm

theorem appendOwn_checkMajority (d : DistributedStateMachine Objects) (command : Command) :
    (d.appendOwn command).checkMajority d.log.length = true ↔ d.peers.length ≤ 1 := by
  simp only [checkMajority, appendOwn_pendingAcks, appendOwn_peers, saveLog_peers, withLog_peers,
    Function.update_self, Finset.card_singleton, decide_eq_true_eq]
  omega

/-- What a leader has become when it has taken up the entries. -/
structure TookUp (d d' : DistributedStateMachine Objects) (entries : List LogEntry) : Prop where
  log : d'.log = d.log ++ entries
  role : d'.role = d.role
  peers : d'.peers = d.peers
  atOnce : d.peers.length ≤ 1 → entries ≠ [] →
    d'.lastApplied = max d.lastApplied (d'.log.length - 1) ∧
      d'.stateMachine =
        ((commands d'.log).drop (d.lastApplied + 1).toNat).foldl Objects.applyCommand d.stateMachine
  later : ¬ (d.peers.length ≤ 1 ∧ entries ≠ []) →
    d'.lastApplied = d.lastApplied ∧ d'.stateMachine = d.stateMachine

theorem TookUp.none (d : DistributedStateMachine Objects) : TookUp d d [] where
  log := (List.append_nil _).symm
  role := rfl
  peers := rfl
  atOnce := fun _ h => absurd rfl h
  later := fun _ => ⟨rfl, rfl⟩

theorem propose_takesUp {d : DistributedStateMachine Objects} (h : d.role = .leader)
    (hlow : -1 ≤ d.lastApplied) (command : Command) :
    TookUp d (d.propose command).1 [⟨d.currentTerm, d.log.length, command⟩] ∧
      (d.propose command).2 = some (true, none) := by
  rw [propose, if_neg (by simp [h])]
  simp only
  by_cases hone : d.peers.length ≤ 1
  · have hlen : (d.appendOwn command).log.length = d.log.length + 1 := List.length_append
    rw [if_pos ((appendOwn_checkMajority d command).mpr hone),
      commitAt_fold (d := d.appendOwn command) hlow (by omega), finish, if_pos rfl]
    refine ⟨⟨rfl, rfl, rfl, fun _ _ => ⟨?_, ?_⟩, fun hno => absurd ⟨hone, by simp⟩ hno⟩, rfl⟩
    · simp
    · simp only [appendOwn_log, appendOwn_lastApplied, appendOwn_stateMachine, foldl_commands,
        saveLog_stateMachine, saveLog_log]
      rw [List.take_of_length_le (by simp), commands, List.map_drop]
      rfl
  · rw [if_neg (fun hmaj => hone ((appendOwn_checkMajority d command).mp hmaj))]
    exact ⟨⟨rfl, rfl, rfl, fun hpeers => absurd hpeers hone, fun _ => ⟨rfl, rfl⟩⟩, rfl⟩

theorem drop_append_drop {α : Type} (xs ys : List α) (m : Nat) :
    xs.drop m ++ (xs ++ ys).drop (max m xs.length) = (xs ++ ys).drop m := by
  rw [List.drop_append, List.drop_append, List.drop_eq_nil_of_le (le_max_right m xs.length),
    List.nil_append]
  congr 2
  omega

theorem TookUp.trans {d d' d'' : DistributedStateMachine Objects} {entry : LogEntry}
    {entries : List LogEntry} (h : TookUp d d' [entry]) (hrest : TookUp d' d'' entries)
    (hlow : -1 ≤ d.lastApplied) : TookUp d d'' (entry :: entries) where
  log := by rw [hrest.log, h.log, List.append_assoc, List.singleton_append]
  role := by rw [hrest.role, h.role]
  peers := by rw [hrest.peers, h.peers]
  atOnce := by
    intro hone _
    obtain ⟨hlast, hobjects⟩ := h.atOnce hone (List.cons_ne_nil _ _)
    by_cases hnil : entries = []
    · subst hnil
      obtain ⟨hlast', hobjects'⟩ := hrest.later (fun hboth => hboth.2 rfl)
      have hlog : d''.log = d'.log := by rw [hrest.log, List.append_nil]
      rw [hlast', hobjects', hlog]
      exact ⟨hlast, hobjects⟩
    · obtain ⟨hlast', hobjects'⟩ := hrest.atOnce (by rwa [h.peers]) hnil
      have hlen : (d'.lastApplied + 1).toNat =
          max (d.lastApplied + 1).toNat (commands d'.log).length := by
        rw [hlast, commands_length]
        omega
      refine ⟨?_, ?_⟩
      · rw [hlast', hlast, hrest.log, List.length_append]
        omega
      · rw [hobjects', hobjects, ← List.foldl_append, hlen, hrest.log, commands_append,
          drop_append_drop]
  later := by
    intro hno
    have hone : ¬ d.peers.length ≤ 1 := fun hle => hno ⟨hle, List.cons_ne_nil _ _⟩
    obtain ⟨hlast, hobjects⟩ := h.later (fun hboth => hone hboth.1)
    obtain ⟨hlast', hobjects'⟩ := hrest.later (fun hboth => hone (h.peers ▸ hboth.1))
    exact ⟨hlast'.trans hlast, hobjects'.trans hobjects⟩

theorem TookUp.low {d d' : DistributedStateMachine Objects} {entries : List LogEntry}
    (h : TookUp d d' entries) (hlow : -1 ≤ d.lastApplied) : -1 ≤ d'.lastApplied := by
  by_cases hone : d.peers.length ≤ 1 ∧ entries ≠ []
  · rw [(h.atOnce hone.1 hone.2).1]
    exact le_trans hlow (le_max_left _ _)
  · rw [(h.later hone).1]
    exact hlow

theorem sendPending_takesUp {d : DistributedStateMachine Objects} (h : d.role = .leader)
    (hlow : -1 ≤ d.lastApplied) {ops : List PendingOperation}
    (hops : ∀ op ∈ ops, op.applied = false) :
    ∃ entries, commands entries = ops.map (·.command) ∧ TookUp d (sendPending d ops).1 entries ∧
      (sendPending d ops).2.2 = true := by
  induction ops generalizing d with
  | nil => exact ⟨[], rfl, TookUp.none d, rfl⟩
  | cons op ops ih =>
      obtain ⟨hone, hanswer⟩ := propose_takesUp h hlow op.command
      obtain ⟨entries, hcommands, hrest, hsent⟩ := ih (hone.role.trans h) (hone.low hlow)
        (fun op hop => hops op (List.mem_cons_of_mem _ hop))
      refine ⟨⟨d.currentTerm, d.log.length, op.command⟩ :: entries, ?_, ?_, ?_⟩
      · rw [commands, List.map_cons, List.map_cons, ← hcommands, commands]
      all_goals
        rw [sendPending, hops op List.mem_cons_self, if_neg Bool.false_ne_true]
        generalize d.propose op.command = r at hone hanswer hrest hsent ⊢
        obtain ⟨d', answer⟩ := r
        cases hanswer
      · exact hone.trans hrest hlow
      · exact hsent

theorem sendPending_refused {d : DistributedStateMachine Objects} (h : d.role ≠ .leader)
    {ops : List PendingOperation} (hops : ∀ op ∈ ops, op.applied = false) :
    sendPending d ops = (d, ops, true) := by
  induction ops with
  | nil => rfl
  | cons op ops ih =>
      rw [sendPending, hops op List.mem_cons_self, if_neg Bool.false_ne_true, propose, if_pos h]
      simp only
      rw [ih (fun op hop => hops op (List.mem_cons_of_mem _ hop))]
      rfl

theorem mergeOne_eq (here leader : DistributedStateMachine Objects) (op : PendingOperation) :
    mergeOne here leader op = leader ∨ mergeOne here leader op = leader.saveSnapshot := by
  rw [mergeOne]
  split
  swap
  · exact Or.inl rfl
  simp only
  split
  swap
  · exact Or.inl rfl
  split
  swap
  · exact Or.inl rfl
  split
  swap
  · exact Or.inl rfl
  rename_i hmerged
  rw [provideMerge]
  split
  · exact Or.inl rfl
  · rw [if_pos]
    · rw [Function.update_eq_self]
      exact Or.inr rfl
    · by_contra hkeep
      exact hmerged (by rw [StateCRDT.merge, if_neg hkeep])

/-- The merge never changes a reference: the value it keeps is the leader's own. -/
theorem foldl_mergeOne (here leader : DistributedStateMachine Objects)
    (ops : List PendingOperation) : ∃ dir,
    ops.foldl (mergeOne here) leader = { leader with stateDir := dir } := by
  induction ops generalizing leader with
  | nil => exact ⟨leader.stateDir, rfl⟩
  | cons op ops ih =>
      rw [List.foldl_cons]
      obtain heq | heq := mergeOne_eq here leader op
      · rw [heq]
        exact ih leader
      · rw [heq]
        obtain ⟨dir, hdir⟩ := ih leader.saveSnapshot
        exact ⟨dir, hdir⟩

/-- The objects after the node has applied the copied log in step 1. -/
def syncedObjects (n leader : HybridConsensusNode) : Objects :=
  ((commands leader.raft.log).drop (n.raft.lastApplied + 1).toNat).foldl Objects.applyCommand
    n.raft.stateMachine

theorem synced_eq {n : HybridConsensusNode} (hlow : -1 ≤ n.raft.lastApplied)
    (leader : HybridConsensusNode) :
    (n.raft.withLog leader.raft.log).commitAt (leader.raft.log.length - 1) =
      ({ n.raft with
        log := leader.raft.log
        commitIndex := leader.raft.log.length - 1
        lastApplied := max n.raft.lastApplied (leader.raft.log.length - 1)
        stateMachine := n.syncedObjects leader }, true) := by
  have htake : leader.raft.log.take ((leader.raft.log.length : Int) - 1 + 1).toNat =
      leader.raft.log := List.take_of_length_le (by omega)
  rw [commitAt_fold (d := n.raft.withLog leader.raft.log) hlow (by rw [withLog_log]; omega)]
  simp only [withLog_log, withLog_lastApplied, withLog_stateMachine, htake, foldl_commands]
  rw [commands, List.map_drop]
  rfl

/-- Once all buffered operations are through, the node has the leader's log and
the objects it leaves, and the merge has at most saved a snapshot. -/
theorem reconnect_sent {n leader : HybridConsensusNode} (hlow : -1 ≤ n.raft.lastApplied)
    (hsent : (sendPending (leader.raft.onHeap (n.syncedObjects leader)) n.pending).2.2 = true) :
    let d := (sendPending (leader.raft.onHeap (n.syncedObjects leader)) n.pending).1
    ∃ dir, n.reconnect leader =
      ({ n with
        raft := { { n.raft with
          log := leader.raft.log
          commitIndex := leader.raft.log.length - 1
          lastApplied := max n.raft.lastApplied (leader.raft.log.length - 1)
          stateMachine := d.stateMachine }.saveSnapshot with role := .follower }
        pending := []
        isOffline := false },
        { leader with raft := { d with stateDir := dir } }, true) := by
  rw [reconnect, synced_eq hlow]
  simp only [if_true]
  rw [if_pos hsent]
  obtain ⟨dir, hdir⟩ := foldl_mergeOne { n.raft with
    log := leader.raft.log
    commitIndex := leader.raft.log.length - 1
    lastApplied := max n.raft.lastApplied (leader.raft.log.length - 1)
    stateMachine := n.syncedObjects leader }
    (sendPending (leader.raft.onHeap (n.syncedObjects leader)) n.pending).1
    (sendPending (leader.raft.onHeap (n.syncedObjects leader)) n.pending).2.1
  rw [hdir]
  exact ⟨dir, rfl⟩

/-- What reconnect leaves behind when the leader has taken up the entries. -/
structure Reconnected (n leader : HybridConsensusNode) (entries : List LogEntry)
    (r : HybridConsensusNode × HybridConsensusNode × Bool) : Prop where
  pending : r.1.pending = []
  log : r.1.raft.log = leader.raft.log
  commitIndex : r.1.raft.commitIndex = leader.raft.log.length - 1
  lastApplied : r.1.raft.lastApplied = max n.raft.lastApplied (leader.raft.log.length - 1)
  objects : r.1.raft.stateMachine = r.2.1.raft.stateMachine
  takesUp : TookUp (leader.raft.onHeap (n.syncedObjects leader)) r.2.1.raft entries

theorem reconnected {n leader : HybridConsensusNode} (h : Ready n leader) :
    ∃ entries, Reconnected n leader entries (n.reconnect leader) ∧
      commands entries = if leader.raft.role = .leader then n.pendingCommands else [] := by
  by_cases hrole : leader.raft.role = .leader
  · obtain ⟨entries, hcommands, htakes, hsent⟩ := sendPending_takesUp
      (d := leader.raft.onHeap (n.syncedObjects leader)) hrole h.leaderLow h.unsent
    refine ⟨entries, ?_, by rw [if_pos hrole]; exact hcommands⟩
    obtain ⟨dir, heq⟩ := reconnect_sent h.nodeLow hsent
    rw [heq]
    exact ⟨rfl, rfl, rfl, rfl, rfl,
      ⟨htakes.log, htakes.role, htakes.peers, htakes.atOnce, htakes.later⟩⟩
  · refine ⟨[], ?_, by rw [if_neg hrole]; rfl⟩
    have hrefused := sendPending_refused
      (d := leader.raft.onHeap (n.syncedObjects leader)) hrole h.unsent
    obtain ⟨dir, heq⟩ := @reconnect_sent n leader h.nodeLow (by rw [hrefused])
    have hnone := TookUp.none (leader.raft.onHeap (n.syncedObjects leader))
    rw [heq, hrefused]
    exact ⟨rfl, rfl, rfl, rfl, rfl,
      ⟨hnone.log, hnone.role, hnone.peers, hnone.atOnce, hnone.later⟩⟩

theorem conflictTerm_own (d : DistributedStateMachine Objects) :
    d.conflictTerm (d.log.length - 1) d.lastLogTerm = none := by
  rw [conflictTerm]
  by_cases hlen : d.log = []
  · rw [if_neg (by simp [hlen])]
  · have hpos := List.length_pos_iff.mpr hlen
    have hnat : ((d.log.length : Int) - 1).toNat = d.log.length - 1 := by omega
    rw [if_pos (by omega), PyList.get_of_nonneg _ (by omega), hnat, lastLogTerm,
      ← List.getLast?_eq_getElem?]
    cases hlast : d.log.getLast? with
    | none => rfl
    | some entry => simp

/-- Entries that continue the node's log, all committed, are applied where the
node stopped. -/
theorem appendEntries_continuing {d : DistributedStateMachine Objects} (entries : List LogEntry)
    (hcommit : d.commitIndex = d.log.length - 1) (happlied : d.log.length - 1 ≤ d.lastApplied) :
    (d.appendEntries entries (d.log.length - 1) d.lastLogTerm
        ((d.log ++ entries).length - 1)).1.stateMachine =
      ((commands (d.log ++ entries)).drop (d.lastApplied + 1).toNat).foldl Objects.applyCommand
        d.stateMachine := by
  have hlow : -1 ≤ d.lastApplied := by omega
  rw [appendEntries, conflictTerm_own]
  simp only
  rw [writeEntries_append (by omega), if_pos rfl, withLog_commitIndex, hcommit, withLog_log]
  by_cases hnil : entries = []
  · rw [if_neg (by simp [hnil]), saveLog_stateMachine, withLog_stateMachine, hnil, List.append_nil,
      List.drop_eq_nil_of_le (by rw [commands_length]; omega), List.foldl_nil]
  · have hpos := List.length_pos_iff.mpr hnil
    have htake : (d.log ++ entries).take (((d.log ++ entries).length : Int) - 1 + 1).toNat =
        d.log ++ entries := List.take_of_length_le (by omega)
    rw [if_pos (by rw [List.length_append]; omega), min_self, finish_stateMachine,
      commitAt_fold (d := d.withLog (d.log ++ entries)) hlow (by rw [withLog_log]; omega)]
    simp only [withLog_log, withLog_lastApplied, withLog_stateMachine, htake, foldl_commands]
    rw [commands, commands, List.map_drop]

theorem catchUp_objects {n leader : HybridConsensusNode} {entries : List LogEntry}
    (hlog : leader.raft.log = n.raft.log ++ entries) (hlow : -1 ≤ leader.raft.lastApplied)
    (hcommit : n.raft.commitIndex = n.raft.log.length - 1)
    (happlied : n.raft.log.length - 1 ≤ n.raft.lastApplied) :
    (n.catchUp leader).1.raft.stateMachine =
      ((commands leader.raft.log).drop (n.raft.lastApplied + 1).toNat).foldl Objects.applyCommand
        ((((commands leader.raft.log).drop (leader.raft.lastApplied + 1).toNat).foldl
          Objects.applyCommand leader.raft.stateMachine).under n.raft.stateMachine.refs) := by
  have htake : leader.raft.log.take ((leader.raft.log.length : Int) - 1 + 1).toNat =
      leader.raft.log := List.take_of_length_le (by omega)
  rw [catchUp, commitAt_fold hlow (by omega)]
  simp only [onHeap_log, htake, foldl_commands]
  rw [commands, List.map_drop, ← commands, hlog, List.drop_left]
  exact appendEntries_continuing (d := n.raft.onHeap _) entries hcommit happlied

/-- The objects of one dict, after commands, seen through references that were
its own before. -/
theorem foldl_under_separate {o : Objects} (h : Objects.Separate o) (commands : List Command) :
    Objects.Separate ((commands.foldl Objects.applyCommand o).under o.refs) where
  valid :=
    have halong : Objects.Alongside o.refs o := ⟨h.valid, h.injective⟩
    (Objects.foldl_alongside halong commands).valid
  injective := h.injective

/-- The leader's dict after step 1. -/
theorem synced_separate {n leader : HybridConsensusNode} (h : Ready n leader) :
    Objects.Separate (leader.raft.onHeap (n.syncedObjects leader)).stateMachine where
  valid := (Objects.foldl_alongside h.alongside _).valid
  injective := h.injective

theorem synced_lookup {n leader : HybridConsensusNode} (h : Ready n leader) (slug : String) :
    (leader.raft.onHeap (n.syncedObjects leader)).stateMachine.lookup slug =
      n.shared leader slug := by
  rw [onHeap_stateMachine, syncedObjects, Objects.foldl_under h.alongside, ← h.sameHeap]
  rfl

theorem fold_handedOver {n leader : HybridConsensusNode} {entries : List LogEntry}
    {d : DistributedStateMachine Objects} (h : Ready n leader)
    (htakes : TookUp (leader.raft.onHeap (n.syncedObjects leader)) d entries)
    (hcommands : commands entries = n.pendingCommands) (slug : String) :
    ((((commands d.log).drop (d.lastApplied + 1).toNat).foldl Objects.applyCommand
      d.stateMachine).under d.stateMachine.refs).lookup slug = n.handedOver leader slug := by
  have hsep := synced_separate h
  have hlog : commands d.log = n.fullLog leader := by
    rw [htakes.log, commands_append, hcommands]
    rfl
  have hnil : entries ≠ [] ↔ n.pending ≠ [] := by
    rw [← List.length_pos_iff, ← List.length_pos_iff, ← commands_length, hcommands,
      pendingCommands, List.length_map]
  rw [handedOver]
  by_cases hone : leader.raft.peers.length ≤ 1 ∧ entries ≠ []
  · obtain ⟨hlast, hobjects⟩ := htakes.atOnce hone.1 hone.2
    rw [if_pos ⟨hone.1, hnil.mp hone.2⟩,
      List.drop_eq_nil_of_le (by rw [commands_length, hlast]; omega), List.foldl_nil]
    change d.stateMachine.lookup slug = _
    rw [hobjects, Objects.foldl_lookup hsep, SlugHistory.foldl_applyCommand_at, synced_lookup h,
      hlog]
    rfl
  · obtain ⟨hlast, hobjects⟩ := htakes.later hone
    rw [if_neg fun hboth => hone ⟨hboth.1, hnil.mpr hboth.2⟩, hobjects, hlast,
      Objects.foldl_under ⟨hsep.valid, hsep.injective⟩, hlog]
    simp only [if_true]
    change Option.map _ ((leader.raft.onHeap (n.syncedObjects leader)).stateMachine.lookup slug) = _
    rw [synced_lookup h]
    rfl

theorem getState_caughtUp {n leader : HybridConsensusNode} {entries : List LogEntry}
    {r : HybridConsensusNode × HybridConsensusNode × Bool} (h : Ready n leader)
    (hr : Reconnected n leader entries r) (hcommands : commands entries = n.pendingCommands)
    (slug : String) : (r.1.catchUp r.2.1).1.raft.getState slug =
      SlugHistory.run (n.handedOver leader slug)
        (SlugHistory.ofSlug ((n.fullLog leader).drop (n.counted leader)) slug) := by
  have hnode := h.nodeLow
  have htakes := hr.takesUp
  have hlog : r.2.1.raft.log = r.1.raft.log ++ entries := by
    rw [hr.log, htakes.log, onHeap_log]
  have hsep : Objects.Separate r.2.1.raft.stateMachine := by
    by_cases hone : leader.raft.peers.length ≤ 1 ∧ entries ≠ []
    · rw [(htakes.atOnce hone.1 hone.2).2]
      exact Objects.foldl_separate (synced_separate h) _
    · rw [(htakes.later hone).2]
      exact synced_separate h
  have hcount : (r.1.raft.lastApplied + 1).toNat = n.counted leader := by
    rw [hr.lastApplied, counted]
    omega
  have hfull : commands r.2.1.raft.log = n.fullLog leader := by
    rw [htakes.log, commands_append, hcommands]
    rfl
  rw [getState, catchUp_objects hlog (htakes.low h.leaderLow) (by rw [hr.commitIndex, hr.log])
      (by rw [hr.lastApplied, hr.log]; omega), hr.objects,
    Objects.foldl_lookup (foldl_under_separate hsep _), SlugHistory.foldl_applyCommand_at,
    fold_handedOver h htakes hcommands, hcount, hfull]

/-- Reconnecting loses and duplicates nothing exactly when the leader takes
what is pending, and hands over for every slug a value that the commands the
node still has to apply cannot tell from the replayed one. -/
theorem reconnectSafe_iff {n leader : HybridConsensusNode} (h : Ready n leader) :
    ReconnectSafe n leader ↔ Faithful n leader := by
  obtain ⟨entries, hr, hcommands⟩ := reconnected h
  have hlog : commands (n.reconnect leader).2.1.raft.log =
      commands leader.raft.log ++ commands entries := by
    rw [hr.takesUp.log, commands_append]
    rfl
  have hpending : (n.reconnect leader).1.pendingCommands = [] := by
    rw [pendingCommands, hr.pending, List.map_nil]
  rw [ReconnectSafe, Faithful]
  simp only [hlog, hpending, List.count_append, List.count_nil, Nat.add_zero,
    Nat.add_left_cancel_iff]
  by_cases hpath : n.pending = [] ∨ leader.raft.role = .leader
  · have hall : commands entries = n.pendingCommands := by
      rw [hcommands]
      split
      · rfl
      · rename_i hrole
        rw [pendingCommands, hpath.resolve_right hrole, List.map_nil]
    rw [hall]
    refine and_congr (iff_of_true (fun _ => rfl) hpath) (forall_congr' fun slug => ?_)
    rw [getState_caughtUp h hr hall, ← SlugHistory.run_eq_iff, ← SlugHistory.run_append,
      ← SlugHistory.ofSlug_append, List.take_append_drop]
    rfl
  · rw [not_or] at hpath
    refine iff_of_false (fun hsafe => ?_) (fun hfaithful => hfaithful.1.elim hpath.1 hpath.2)
    obtain ⟨op, ops, hops⟩ := List.exists_cons_of_ne_nil hpath.1
    have hcount := hsafe.1 op.command
    rw [hcommands, if_neg hpath.2, pendingCommands, hops, List.map_cons, List.count_cons_self] at hcount
    simp at hcount

theorem shared_of_settled {n leader : HybridConsensusNode} (h : Settled n leader) (slug : String) :
    n.shared leader slug = leader.raft.getState slug := by
  rw [shared]
  split
  · rename_i hrefs
    rw [getState, Objects.lookup, h.own slug hrefs]
    rfl
  · exact Option.map_id'

/-- In the ordinary case it is the pending commands that decide: for a slug
that none of them creates anew they must not move the version on, as far as
the leader carries them out on an object that the node then holds. -/
theorem faithful_iff_of_settled {n leader : HybridConsensusNode} (h : Settled n leader) :
    Faithful n leader ↔ (n.pending = [] ∨ leader.raft.role = .leader) ∧
      ∀ slug, (SlugHistory.ofSlug n.pendingCommands slug).any Command.isCreate = true ∨
        if leader.raft.peers.length ≤ 1 then
          (SlugHistory.ofSlug n.pendingCommands slug).any Command.effective = false
        else leader.raft.getState slug = none ∨
          ((SlugHistory.ofSlug n.pendingCommands slug).takeWhile Command.inPlace).any
            Command.effective = false := by
  have hcounted : n.counted leader = (commands leader.raft.log).length := by
    have := h.notAhead
    rw [counted, commands_length]
    omega
  have hlast : (leader.raft.lastApplied + 1).toNat = (commands leader.raft.log).length := by
    rw [h.applied, commands_length]
    omega
  rw [Faithful, and_congr_right_iff]
  intro _
  refine forall_congr' fun slug => ?_
  rw [handedOver, hcounted, hlast, fullLog, List.drop_left, List.take_left, ← h.replayed,
    shared_of_settled h]
  by_cases hnil : SlugHistory.ofSlug n.pendingCommands slug = []
  · rw [hnil]
    refine iff_of_true (Or.inl ?_) (Or.inr (by simp))
    split
    · rfl
    · exact Option.map_id'
  have hpending : n.pending ≠ [] := by
    intro heq
    rw [pendingCommands, heq] at hnil
    exact hnil rfl
  by_cases hone : leader.raft.peers.length ≤ 1
  · rw [if_pos ⟨hone, hpending⟩, if_pos hone, SlugHistory.run_of_ne_nil hnil,
      SlugHistory.sameFrom_getD hnil]
    exact SlugHistory.sameFrom_ahead id _
  · rw [if_neg fun hboth => hone hboth.1, if_neg hone]
    cases hstate : leader.raft.getState slug with
    | none => exact iff_of_true (Or.inl rfl) (Or.inr (Or.inl rfl))
    | some state =>
        rw [or_iff_right (Option.some_ne_none state)]
        refine SlugHistory.sameFrom_ahead (fun hany => ?_) state
        obtain ⟨c, hc, hcreate⟩ := List.any_eq_true.mp hany
        exact List.any_eq_true.mpr ⟨c, (List.takeWhile_prefix _).subset hc, hcreate⟩

/-- What is applied offline is what is pending, less the commands without a slug. -/
theorem foldl_apply_pending {n : HybridConsensusNode} (hoffline : n.isOffline = true)
    (cs : List Command) :
    (cs.foldl (fun n command => (n.apply command).1) n).pendingCommands =
      n.pendingCommands ++ cs.filter fun command => truthy command.slug := by
  induction cs generalizing n with
  | nil => simp
  | cons command cs ih =>
      have hstep : (n.apply command).1.isOffline = true ∧ (n.apply command).1.pendingCommands =
          n.pendingCommands ++ if truthy command.slug then [command] else [] := by
        rw [apply, if_pos hoffline, applyPending]
        split
        · exact ⟨hoffline, by simp [pendingCommands]⟩
        · exact ⟨hoffline, (List.append_nil _).symm⟩
      rw [List.foldl_cons, ih hstep.1, hstep.2, List.append_assoc, List.filter_cons]
      split <;> rfl

def stored (nodeId : String) (log : List LogEntry) (role : NodeRole) (o : Objects) :
    HybridConsensusNode where
  raft :=
    { nodeId := nodeId
      peers := ["node-1", "node-2", "node-3"].erase nodeId
      role := role
      currentTerm := 1
      votedFor := none
      log := log
      commitIndex := log.length - 1
      lastApplied := log.length - 1
      stateMachine := o
      transitions := []
      pendingAcks := fun _ => ∅
      stateDir := {} }
  pending := []
  isOffline := role = .offline

def beside (leader n : HybridConsensusNode) : HybridConsensusNode :=
  { leader with raft := leader.raft.onHeap n.raft.stateMachine }

/-- Working offline keeps the node ready for its reconnect. -/
theorem apply_ready {n leader : HybridConsensusNode} (h : Ready n leader)
    (hoffline : n.isOffline = true) (command : Command) :
    Ready (n.apply command).1 (leader.beside (n.apply command).1) := by
  rw [apply, if_pos hoffline, applyPending]
  split
  swap
  · exact ⟨h.unsent, rfl, h.separate, h.alongside, h.injective, h.nodeLow, h.leaderLow⟩
  have hsep := Objects.ensure_separate h.separate (command.slug.getD "")
  have halong := Objects.ensure_alongside h.alongside (command.slug.getD "")
  refine ⟨?_, rfl, ?_, ?_, h.injective, h.nodeLow, h.leaderLow⟩
  · intro op hop
    obtain hold | hnew := List.mem_append.mp hop
    · exact h.unsent op hold
    · rw [List.mem_singleton.mp hnew]
  · simp only
    split
    · exact Objects.mutate_separate hsep _ _
    · exact hsep
  · simp only
    split
    · exact Objects.mutate_alongside halong _ _
    · exact halong

def offlineNode : HybridConsensusNode :=
  stored "node-2" [] .offline ⟨fun _ => ⟨"start", 1⟩, 1, fun _ => none⟩

def creator : HybridConsensusNode :=
  stored "node-1" [⟨1, 0, { slug := "a", type := "create" }⟩] .leader
    ⟨fun _ => ⟨"start", 1⟩, 1, Function.update (fun _ => none) "a" (some 0)⟩

theorem creator_ref {s : String} {r : Nat} (h : creator.raft.stateMachine.refs s = some r) :
    s = "a" ∧ r = 0 := by
  by_cases hs : s = "a"
  · subst hs
    exact ⟨rfl, (Option.some.inj h).symm⟩
  · change Function.update (fun _ => none) "a" (some 0) s = some r at h
    rw [Function.update_of_ne hs] at h
    cases h

theorem offlineNode_ready : Ready offlineNode creator where
  unsent := by intro op hop; cases hop
  sameHeap := rfl
  separate := by constructor <;> (intro s; intros; contradiction)
  alongside := by
    constructor
    · intro s r hr
      rw [(creator_ref hr).2]
      exact Nat.one_pos
    · intro s t r _ ht
      cases ht
  injective := by
    intro s t r hs ht
    rw [(creator_ref hs).1, (creator_ref ht).1]
  nodeLow := by decide
  leaderLow := by decide

/-- The leader of three nodes has created a. A node that moves a on offline
finds the move counted twice when it has caught up. -/
theorem not_reconnectSafe :
    ¬ ∀ n leader : HybridConsensusNode, Ready n leader → ReconnectSafe n leader := by
  intro h
  have hstate := (h _ _ (apply_ready offlineNode_ready rfl
    { slug := "a", type := "transition", toState := "b" })).2 "a"
  revert hstate
  decide

/-- A slug of the node's own making is handed over unharmed. -/
theorem reconnectSafe_of_created :
    ReconnectSafe (offlineNode.apply { slug := "b", type := "create" }).1
      (creator.beside (offlineNode.apply { slug := "b", type := "create" }).1) := by
  refine (reconnectSafe_iff (apply_ready offlineNode_ready rfl _)).mpr ⟨Or.inr rfl, fun slug => ?_⟩
  by_cases hb : slug = "b"
  · subst hb
    decide
  by_cases ha : slug = "a"
  · subst ha
    decide
  have hrefs : creator.raft.stateMachine.refs slug = none := by
    cases hr : creator.raft.stateMachine.refs slug with
    | none => rfl
    | some r => exact absurd (creator_ref hr).1 ha
  have hnone : shared (offlineNode.apply { slug := "b", type := "create" }).1
      (creator.beside (offlineNode.apply { slug := "b", type := "create" }).1) slug = none := by
    rw [shared, getState, Objects.lookup]
    change Option.map _ (Option.map _ (creator.raft.stateMachine.refs slug)) = none
    rw [hrefs]
    rfl
  refine Or.inl ?_
  rw [handedOver, hnone]
  have hother : SlugHistory.ofSlug [{ slug := some "a", type := some "create" }] slug = [] := by
    simp [SlugHistory.ofSlug, Command.concerns, Ne.symm ha]
  exact (congrArg (SlugHistory.run none) hother).symm

end HybridConsensusNode

end Prodinamik.Raft
