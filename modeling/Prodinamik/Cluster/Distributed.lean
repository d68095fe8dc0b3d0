import Prodinamik.Lib.Run
import Prodinamik.Lib.SharedLog
import Prodinamik.Lib.Table

namespace Prodinamik.Cluster

open Lib Lib.Run Lib.SharedLog

variable {N : Type} [DecidableEq N]

inductive RunStatus
  | active
  | archived
  | migrated
  deriving DecidableEq, Repr

structure DistributedRun (N : Type) where
  slug : String
  profile : String
  title : String
  currentState : String
  ownerNode : N
  version : Int := 0
  status : RunStatus := .active
  deriving DecidableEq, Repr

/-- What is proposed to the Raft log. -/
inductive Command (N : Type)
  | create (slug profile title : String) (owner : N)
  | transition (slug toState : String)
  deriving DecidableEq, Repr

def Command.slug : Command N → String
  | .create slug _ _ _ => slug
  | .transition slug _ => slug

/-- What becomes of a command that is given to Raft: it is refused, or it is
accepted and committed, or it is accepted and lost with the leader. -/
inductive Proposal
  | refused (error : String)
  | committed
  | lost
  deriving DecidableEq, Repr

structure DistributedRunCoordinator (N : Type) where
  nodeId : N
  runs : Table (DistributedRun.slug (N := N)) := .empty

namespace DistributedRunCoordinator

def run (c : DistributedRunCoordinator N) (slug : String) : Option (DistributedRun N) :=
  c.runs.get slug

def created (slug profile title : String) (owner : N) : DistributedRun N where
  slug := slug
  profile := profile
  title := title
  currentState := "created"
  ownerNode := owner

def moved (run : DistributedRun N) (newState : String) : DistributedRun N :=
  { run with currentState := newState, version := run.version + 1 }

/-- The new coordinator and the command that went to Raft. -/
abbrev Outcome (N : Type) :=
  Except String (DistributedRunCoordinator N × Option (Command N))

/-- create_run of the leader, with the slug that was given or made up. -/
def createRun (c : DistributedRunCoordinator N) (profile title slug : String)
    (raft : Proposal) : Outcome N :=
  match c.run slug with
  | some _ => .error ("Run '" ++ slug ++ "' already exists")
  | none =>
    match raft with
    | .refused err => .error ("Raft replication failed: " ++ err)
    | _ =>
        .ok ({ c with runs := c.runs.put (created slug profile title c.nodeId) },
          some (.create slug profile title c.nodeId))

/-- Only a run of another node is proposed to Raft. -/
def transitionRun (c : DistributedRunCoordinator N) (slug newState : String)
    (raft : Proposal) : Outcome N :=
  match c.run slug with
  | none => .error ("Run '" ++ slug ++ "' not found")
  | some run =>
    if run.ownerNode ≠ c.nodeId then
      match raft with
      | .refused err => .error ("Raft propose failed: " ++ err)
      | _ => .ok ({ c with runs := c.runs.put (moved run newState) }, some (.transition slug newState))
    else .ok ({ c with runs := c.runs.put (moved run newState) }, none)

def archiveRun (c : DistributedRunCoordinator N) (slug : String) : Outcome N :=
  match c.run slug with
  | none => .error ("Run '" ++ slug ++ "' not found")
  | some run => .ok ({ c with runs := c.runs.put { run with status := .archived } }, none)

def syncFromRaft (c : DistributedRunCoordinator N) : Command N → DistributedRunCoordinator N
  | .create slug profile title owner =>
      { c with runs := c.runs.put (created slug profile title owner) }
  | .transition slug toState =>
      match c.run slug with
      | none => c
      | some run => { c with runs := c.runs.put (moved run toState) }

/-- What a command does to the record of its run. -/
def applyCommand (r : Option (DistributedRun N)) : Command N → Option (DistributedRun N)
  | .create slug profile title owner => some (created slug profile title owner)
  | .transition _ toState => r.map fun run => moved run toState

omit [DecidableEq N] in
theorem run_put (c : DistributedRunCoordinator N) (r : DistributedRun N) (x : String) :
    run { c with runs := c.runs.put r } x = if x = r.slug then some r else c.run x :=
  Table.get_put _ _ _

omit [DecidableEq N] in
theorem slug_of_run {c : DistributedRunCoordinator N} {x : String} {r : DistributedRun N}
    (h : c.run x = some r) : r.slug = x := Table.key_of_get h

theorem run_syncFromRaft (c : DistributedRunCoordinator N) (cmd : Command N) (x : String) :
    (c.syncFromRaft cmd).run x =
      if x = cmd.slug then applyCommand (c.run x) cmd else c.run x := by
  cases cmd with
  | create slug profile title owner => exact run_put _ _ _
  | transition slug toState =>
      rw [syncFromRaft]
      cases hrun : c.run slug with
      | none =>
          simp only
          split
          case isTrue hx =>
            obtain rfl : x = slug := hx
            rw [hrun]
            rfl
          case isFalse => rfl
      | some r =>
          simp only
          rw [run_put]
          have hslug : (moved r toState).slug = slug := slug_of_run (r := r) hrun
          rw [hslug]
          refine ite_congr rfl (fun hx => ?_) fun _ => rfl
          obtain rfl : x = slug := hx
          rw [hrun]
          rfl

omit [DecidableEq N] in
@[simp]
theorem nodeId_syncFromRaft (c : DistributedRunCoordinator N) (cmd : Command N) :
    (c.syncFromRaft cmd).nodeId = c.nodeId := by
  cases cmd with
  | create => rfl
  | transition slug toState =>
      rw [syncFromRaft]
      split <;> rfl

section Outcomes

variable {c c' : DistributedRunCoordinator N} {slug : String} {raft : Proposal}
  {command : Option (Command N)}

omit [DecidableEq N] in
theorem createRun_ok {profile title : String}
    (h : c.createRun profile title slug raft = .ok (c', command)) :
    c.run slug = none ∧ (∀ err, raft ≠ .refused err) ∧
      c' = { c with runs := c.runs.put (created slug profile title c.nodeId) } ∧
      command = some (.create slug profile title c.nodeId) := by
  unfold createRun at h
  split at h
  case h_1 => cases h
  case h_2 hrun =>
    split at h
    case h_1 => cases h
    case h_2 hraft =>
      cases h
      exact ⟨hrun, hraft, rfl, rfl⟩

theorem transitionRun_ok {newState : String}
    (h : c.transitionRun slug newState raft = .ok (c', command)) : ∃ r, c.run slug = some r ∧
      c' = { c with runs := c.runs.put (moved r newState) } ∧ (r.ownerNode ≠ c.nodeId →
        (∀ err, raft ≠ .refused err) ∧ command = some (.transition slug newState)) := by
  unfold transitionRun at h
  split at h
  case h_1 => cases h
  case h_2 r hrun =>
    split at h
    case isTrue howner =>
      split at h
      case h_1 => cases h
      case h_2 hraft =>
        cases h
        exact ⟨r, hrun, rfl, fun _ => ⟨hraft, rfl⟩⟩
    case isFalse howner =>
      cases h
      exact ⟨r, hrun, rfl, fun hne => absurd hne howner⟩

omit [DecidableEq N] in
theorem archiveRun_ok (h : c.archiveRun slug = .ok (c', command)) : ∃ r, c.run slug = some r ∧
    c' = { c with runs := c.runs.put { r with status := .archived } } ∧ command = none := by
  rw [archiveRun] at h
  split at h
  case h_1 => cases h
  case h_2 r hrun =>
    cases h
    exact ⟨r, hrun, rfl, rfl⟩

end Outcomes

end DistributedRunCoordinator

open DistributedRunCoordinator

/-- The coordinators of a cluster, the committed commands with the nodes that
have issued them, and how far each node has gone through them. -/
structure RunCluster (N : Type) where
  nodes : N → DistributedRunCoordinator N := fun n => { nodeId := n }
  log : List (N × Command N) := []
  synced : N → Nat := fun _ => 0

inductive RunAction (N : Type)
  | createRun (n : N) (profile title slug : String) (raft : Proposal)
  | transitionRun (n : N) (slug newState : String) (raft : Proposal)
  | archiveRun (n : N) (slug : String)
  | sync (n : N)
  deriving DecidableEq, Repr

namespace RunCluster

def setNode (s : RunCluster N) (n : N) (c : DistributedRunCoordinator N) : RunCluster N :=
  { s with nodes := Function.update s.nodes n c }

/-- A call on the node that is the leader. -/
def call (s : RunCluster N) (n : N) (raft : Proposal) (outcome : Outcome N) : RunCluster N :=
  match outcome with
  | .error _ => s
  | .ok (c, command) =>
      { s.setNode n c with
        log := if raft = .committed then s.log ++ (command.map fun cmd => (n, cmd)).toList
          else s.log }

/-- sync_from_raft is called for the commands of the other nodes. -/
def sync (s : RunCluster N) (n : N) : RunCluster N :=
  match s.log[s.synced n]? with
  | none => s
  | some (issuer, command) =>
      { s.setNode n (if issuer = n then s.nodes n else (s.nodes n).syncFromRaft command) with
        synced := Function.update s.synced n (s.synced n + 1) }

def perform (s : RunCluster N) : RunAction N → RunCluster N
  | .createRun n profile title slug raft =>
      s.call n raft ((s.nodes n).createRun profile title slug raft)
  | .transitionRun n slug newState raft =>
      s.call n raft ((s.nodes n).transitionRun slug newState raft)
  | .archiveRun n slug => s.call n .committed ((s.nodes n).archiveRun slug)
  | .sync n => s.sync n

/-- The commands that a node has still to go through. -/
def ahead (s : RunCluster N) (n : N) : List (N × Command N) := s.log.drop (s.synced n)

/-- Every committed command has been synced everywhere. -/
def Settled (s : RunCluster N) : Prop := ∀ n, ∀ e ∈ s.ahead n, e.1 = n

/-- What the coordinators have to agree on. -/
def view (s : RunCluster N) (n : N) (slug : String) : Option (String × Int × RunStatus) :=
  ((s.nodes n).run slug).map fun run => (run.currentState, run.version, run.status)

def Agree (s : RunCluster N) : Prop := ∀ n m slug, s.view n slug = s.view m slug

/-- The node has synced what others have committed for the run, and its own
command for it is committed. -/
def Safe (s : RunCluster N) (n : N) (slug : String) : Proposal → Prop
  | .refused _ => True
  | .committed => ∀ e ∈ s.ahead n, e.2.slug = slug → e.1 = n
  | .lost => False

/-- The run is new or not known to the leader, or it is another node's; it is
not archived; and the leader is up to date with it. -/
def Allowed (s : RunCluster N) : RunAction N → Prop
  | .createRun n _ _ slug raft => ((s.nodes n).run slug).isSome ∨ s.Safe n slug raft
  | .transitionRun n slug _ raft =>
      ∀ run ∈ (s.nodes n).run slug, run.ownerNode ≠ n ∧ s.Safe n slug raft
  | .archiveRun n slug => ∀ run ∈ (s.nodes n).run slug, run.status = .archived
  | .sync _ => True

def ofRun (x : String) (log : List (N × Command N)) : List (N × Command N) :=
  log.filter fun e => e.2.slug = x

/-- Each node stands, for each run, where its place in the log and its own
commands put it. -/
structure Inv (s : RunCluster N) : Prop where
  ids : ∀ n, (s.nodes n).nodeId = n
  bound : ∀ n, s.synced n ≤ s.log.length
  follows : ∀ n x, Follows applyCommand none n (ofRun x (s.log.take (s.synced n)))
    (ofRun x (s.ahead n)) ((s.nodes n).run x)

omit [DecidableEq N] in
theorem inv_start : (({} : RunCluster N)).Inv :=
  ⟨fun _ => rfl, fun _ => Nat.le_refl _, fun _ _ => .start⟩

theorem Inv.issue {s : RunCluster N} (h : s.Inv) {n : N} {c : DistributedRunCoordinator N}
    {cmd : Command N} (hid : c.nodeId = n)
    (hrun : ∀ x, c.run x =
      if x = cmd.slug then applyCommand ((s.nodes n).run x) cmd else (s.nodes n).run x)
    (hahead : ∀ e ∈ s.ahead n, e.2.slug = cmd.slug → e.1 = n) :
    Inv { s.setNode n c with log := s.log ++ [(n, cmd)] } := by
  refine ⟨fun m => ?_, fun m => ?_, fun m x => ?_⟩
  · by_cases hm : m = n
    · subst hm
      simpa [setNode] using hid
    · simpa [setNode, hm] using h.ids m
  · rw [List.length_append]
    exact Nat.le_trans (h.bound m) (Nat.le_add_right _ _)
  · have hfollows := h.follows m x
    rw [ahead] at hfollows ⊢
    simp only [setNode]
    rw [List.take_append_of_le_length (h.bound m), List.drop_append_of_le_length (h.bound m)]
    simp only [ofRun] at hfollows ⊢
    rw [List.filter_append]
    by_cases hx : x = cmd.slug
    · subst hx
      rw [List.filter_cons_of_pos (by simp), List.filter_nil]
      by_cases hm : m = n
      · subst hm
        rw [Function.update_self, hrun, if_pos rfl]
        refine hfollows.issue fun e he => ?_
        obtain ⟨he, hslug⟩ := List.mem_filter.mp he
        exact hahead e he (by simpa using hslug)
      · rw [Function.update_of_ne hm]
        exact hfollows.hear (Ne.symm hm)
    · rw [List.filter_cons_of_neg (by simpa using Ne.symm hx), List.filter_nil, List.append_nil]
      by_cases hm : m = n
      · subst hm
        rw [Function.update_self, hrun, if_neg hx]
        exact hfollows
      · rw [Function.update_of_ne hm]
        exact hfollows

theorem Inv.sync {s : RunCluster N} (h : s.Inv) (n : N) : (s.sync n).Inv := by
  rw [RunCluster.sync]
  split
  case h_1 => exact h
  case h_2 issuer command hnext =>
    obtain ⟨hlt, hget⟩ := List.getElem?_eq_some_iff.mp hnext
    have htake : s.log.take (s.synced n + 1) = s.log.take (s.synced n) ++ [(issuer, command)] := by
      rw [List.take_add_one, hnext]
      rfl
    have hdrop : s.log.drop (s.synced n) = (issuer, command) :: s.log.drop (s.synced n + 1) := by
      rw [List.drop_eq_getElem_cons hlt, hget]
    refine ⟨fun m => ?_, fun m => ?_, fun m x => ?_⟩
    · by_cases hm : m = n
      · subst hm
        simp only [setNode, Function.update_self]
        split
        case isTrue => exact h.ids m
        case isFalse => exact (nodeId_syncFromRaft _ _).trans (h.ids m)
      · simpa [setNode, hm] using h.ids m
    · by_cases hm : m = n
      · subst hm
        simpa [setNode, Nat.succ_le_iff] using hlt
      · simpa [setNode, hm] using h.bound m
    · have hfollows := h.follows m x
      by_cases hm : m = n
      · subst hm
        rw [ahead, hdrop] at hfollows
        rw [ahead]
        simp only [setNode, Function.update_self]
        rw [htake]
        simp only [ofRun] at hfollows ⊢
        rw [List.filter_append]
        by_cases hx : command.slug = x
        · subst hx
          rw [List.filter_cons_of_pos (by simp)] at hfollows
          rw [List.filter_cons_of_pos (by simp), List.filter_nil]
          by_cases hissuer : issuer = m
          · subst hissuer
            rw [if_pos rfl]
            exact hfollows.skip
          · rw [if_neg hissuer, run_syncFromRaft, if_pos rfl]
            exact hfollows.sync hissuer
        · rw [List.filter_cons_of_neg (by simpa using hx)] at hfollows
          rw [List.filter_cons_of_neg (by simpa using hx), List.filter_nil, List.append_nil]
          split
          case isTrue => exact hfollows
          case isFalse =>
            rw [run_syncFromRaft, if_neg (Ne.symm hx)]
            exact hfollows
      · simp only [setNode, ahead, Function.update_of_ne hm]
        exact hfollows

/-- A call that is allowed changes nothing, or its command is committed and
does to the leader what it does to the others. -/
theorem Inv.call {s : RunCluster N} (h : s.Inv) {n : N} {raft : Proposal} {outcome : Outcome N}
    (hcall : ∀ c command, outcome = .ok (c, command) →
      (command = none ∧ c = s.nodes n) ∨
        ∃ cmd, raft = .committed ∧ command = some cmd ∧ c.nodeId = n ∧
          (∀ x, c.run x =
            if x = cmd.slug then applyCommand ((s.nodes n).run x) cmd else (s.nodes n).run x) ∧
          ∀ e ∈ s.ahead n, e.2.slug = cmd.slug → e.1 = n) :
    (s.call n raft outcome).Inv := by
  cases outcome with
  | error => exact h
  | ok result =>
    obtain ⟨c, command⟩ := result
    rw [RunCluster.call]
    obtain ⟨rfl, rfl⟩ | ⟨cmd, rfl, rfl, hid, hrun, hahead⟩ := hcall c command rfl
    · have hsame : s.setNode n (s.nodes n) = s := by
        rw [setNode, Function.update_eq_self]
      rw [hsame]
      simpa using h
    · exact h.issue hid hrun hahead

theorem Inv.perform {s : RunCluster N} (h : s.Inv) {a : RunAction N} (ha : s.Allowed a) :
    (s.perform a).Inv := by
  cases a with
  | sync n => exact h.sync n
  | createRun n profile title slug raft =>
      refine h.call fun c command hok => ?_
      obtain ⟨hrun, hraft, rfl, rfl⟩ := createRun_ok hok
      have hsafe : s.Safe n slug raft := ha.resolve_left (by rw [hrun]; exact Bool.false_ne_true)
      cases raft with
      | refused err => exact absurd rfl (hraft err)
      | lost => exact hsafe.elim
      | committed => exact .inr ⟨_, rfl, rfl, h.ids n, fun x => run_put _ _ _, hsafe⟩
  | transitionRun n slug newState raft =>
      refine h.call fun c command hok => ?_
      obtain ⟨r, hrun, rfl, howned⟩ := transitionRun_ok hok
      obtain ⟨howner, hsafe⟩ : r.ownerNode ≠ n ∧ s.Safe n slug raft := ha r hrun
      rw [h.ids n] at howned
      obtain ⟨hraft, rfl⟩ := howned howner
      cases raft with
      | refused err => exact absurd rfl (hraft err)
      | lost => exact hsafe.elim
      | committed =>
          refine .inr ⟨_, rfl, rfl, h.ids n, fun x => ?_, hsafe⟩
          have hslug : (moved r newState).slug = slug := slug_of_run (r := r) hrun
          rw [run_put, hslug]
          refine ite_congr rfl (fun hx => ?_) fun _ => rfl
          obtain rfl : x = slug := hx
          rw [hrun]
          rfl
  | archiveRun n slug =>
      refine h.call fun c command hok => ?_
      obtain ⟨r, hrun, rfl, rfl⟩ := archiveRun_ok hok
      have hstatus : r.status = .archived := ha r hrun
      have hsame : { r with status := .archived } = r := by rw [← hstatus]
      refine .inl ⟨rfl, ?_⟩
      rw [hsame, Table.put_of_mem (Table.get_eq_some.mp hrun).1]

omit [DecidableEq N] in
theorem Inv.agree {s : RunCluster N} (h : s.Inv) (hsettled : s.Settled) : s.Agree := by
  have hrun : ∀ n x, (s.nodes n).run x = replay applyCommand none (ofRun x s.log) := by
    intro n x
    have hlast := (h.follows n x).settled fun e he => hsettled n e (List.mem_of_mem_filter he)
    rw [hlast, ahead, ofRun, ofRun, ← List.filter_append, List.take_append_drop]
    rfl
  intro n m x
  rw [view, view, hrun, hrun]

end RunCluster

end Prodinamik.Cluster
