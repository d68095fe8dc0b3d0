import Mathlib.Data.List.Basic
import Mathlib.Logic.Function.Basic
import Mathlib.Order.Lattice
import Prodinamik.Lib.Run

namespace Prodinamik.Grid

open Lib.Run

inductive BridgeState
  | detached
  | standby
  | active
  | transitioning
  deriving DecidableEq, Repr

inductive CoordinatorStatus
  | standby
  | active
  | failingOver
  | stopped
  deriving DecidableEq, Repr

/-- What start and stop do to a coordinator. Every start makes new background
loops and a new task queue; they are told apart by the number of the start. -/
structure CoordinatorLife where
  status : CoordinatorStatus := .stopped
  running : Bool := false
  starts : Nat := 0
  tasks : Option Nat := none
  taskQueue : Option Nat := none
  cancelled : Nat → Bool := fun _ => false
  walOpen : Nat → Bool := fun _ => false

namespace CoordinatorLife

def start (c : CoordinatorLife) : CoordinatorLife :=
  if c.running then c
  else
    { status := .active
      running := true
      starts := c.starts + 1
      tasks := some c.starts
      taskQueue := some c.starts
      cancelled := Function.update c.cancelled c.starts false
      walOpen := Function.update c.walOpen c.starts true }

/-- stop up to the point where it waits for the loops it has cancelled. -/
def stop (c : CoordinatorLife) : CoordinatorLife :=
  { c with
    status := .stopped
    running := false
    cancelled := match c.tasks with
      | none => c.cancelled
      | some g => Function.update c.cancelled g true }

/-- The rest of stop: it closes the queue that the coordinator has by then. -/
def finishStop (c : CoordinatorLife) : CoordinatorLife :=
  { c with
    tasks := none
    walOpen := match c.taskQueue with
      | none => c.walOpen
      | some g => Function.update c.walOpen g false }

def isActive (c : CoordinatorLife) : Bool := c.status = .active && c.running

/-- The coordinator is active, its loops are not cancelled and its log is open. -/
def Serving (c : CoordinatorLife) : Prop :=
  c.isActive ∧ c.tasks.any (fun g => !c.cancelled g) ∧ c.taskQueue.any c.walOpen

instance : DecidablePred Serving := fun c => inferInstanceAs (Decidable (_ ∧ _ ∧ _))

end CoordinatorLife

inductive JobKind
  | promote
  | demote
  deriving DecidableEq, Repr

/-- Where a promotion or a demotion waits: for its turn, in the sleep or in
try_assign, for the cancelled loops or in the closing of the queue. -/
inductive JobStage
  | created
  | sleeping
  | assigning
  | gathering
  | closing
  | done
  deriving DecidableEq, Repr

structure Job where
  kind : JobKind
  stage : JobStage := .created
  deriving DecidableEq, Repr

structure CoordinatorRaftBridge where
  state : BridgeState := .standby
  coordinator : CoordinatorLife := {}
  jobs : List Job := []
  lastEvent : Option JobKind := none

/-- An event of Raft, or one of the tasks goes on to where it waits next. -/
inductive BridgeAction
  | leaderElected
  | stepDown
  | resume (i : Nat)
  deriving DecidableEq, Repr

namespace CoordinatorRaftBridge

/-- _on_leader_elected and _on_step_down while the event loop runs. -/
def onEvent (b : CoordinatorRaftBridge) (kind : JobKind) : CoordinatorRaftBridge :=
  { b with
    state := .transitioning
    jobs := b.jobs ++ [{ kind := kind }]
    lastEvent := some kind }

def setStage (b : CoordinatorRaftBridge) (i : Nat) (stage : JobStage) : CoordinatorRaftBridge :=
  { b with jobs := b.jobs.modify i fun job => { job with stage := stage } }

/-- A step of _promote_coordinator. The queue that is assigned is of no account here. -/
def promote (b : CoordinatorRaftBridge) (i : Nat) : JobStage → CoordinatorRaftBridge
  | .created => { b.setStage i .sleeping with coordinator := b.coordinator.start }
  | .sleeping => b.setStage i .assigning
  | .assigning => { b.setStage i .done with state := .active }
  | _ => b

/-- A step of _demote_coordinator. There is nothing to wait for without loops. -/
def demote (b : CoordinatorRaftBridge) (i : Nat) : JobStage → CoordinatorRaftBridge
  | .created =>
      if b.coordinator.tasks = none then
        { b.setStage i .closing with coordinator := b.coordinator.stop.finishStop }
      else { b.setStage i .gathering with coordinator := b.coordinator.stop }
  | .gathering => { b.setStage i .closing with coordinator := b.coordinator.finishStop }
  | .closing => { b.setStage i .done with state := .standby }
  | _ => b

def perform (b : CoordinatorRaftBridge) : BridgeAction → CoordinatorRaftBridge
  | .leaderElected => b.onEvent .promote
  | .stepDown => b.onEvent .demote
  | .resume i =>
    match b.jobs[i]? with
    | none => b
    | some ⟨.promote, stage⟩ => b.promote i stage
    | some ⟨.demote, stage⟩ => b.demote i stage

/-- All tasks have finished. -/
def Finished (b : CoordinatorRaftBridge) : Prop := ∀ job ∈ b.jobs, job.stage = .done

def FollowsRaft (b : CoordinatorRaftBridge) : Prop :=
  b.state = .active ∧ b.coordinator.Serving ↔ b.lastEvent = some .promote

instance : DecidablePred Finished := fun b =>
  inferInstanceAs (Decidable (∀ job ∈ b.jobs, job.stage = .done))

instance : DecidablePred FollowsRaft := fun b => inferInstanceAs (Decidable (_ ↔ _))

/-- A promotion begins once the demotions from before it have finished, and a
demotion once the promotions from before it have begun. -/
def InTurn (b : CoordinatorRaftBridge) : BridgeAction → Prop
  | .resume i => ∀ job ∈ b.jobs[i]?, job.stage = .created → ∀ earlier ∈ b.jobs.take i,
      earlier.kind ≠ job.kind →
        (job.kind = .promote → earlier.stage = .done) ∧
          (job.kind = .demote → earlier.stage ≠ .created)
  | _ => True

/-- What the coordinator is like when the last task that has begun is of the kind. -/
def Rests (kind : JobKind) (c : CoordinatorLife) : Prop :=
  match kind with
  | .promote => c.Serving
  | .demote => c.running = false

/-- The state that a task of the kind leaves behind. -/
def rest : JobKind → BridgeState
  | .promote => .active
  | .demote => .standby

theorem rests_start {kind : JobKind} {c : CoordinatorLife} (h : Rests kind c) :
    Rests .promote c.start := by
  rw [CoordinatorLife.start]
  cases hrunning : c.running with
  | true =>
      cases kind with
      | promote => exact h
      | demote =>
          have hstopped : c.running = false := h
          rw [hrunning] at hstopped
          cases hstopped
  | false =>
      rw [if_neg Bool.false_ne_true]
      refine ⟨rfl, ?_, ?_⟩
      · simp
      · simp

/-- What a task does that begins or goes on. -/
structure Advances (b b' : CoordinatorRaftBridge) (i : Nat) (job : Job) : Prop where
  undone : job.stage ≠ .done
  jobs : ∃ stage, b'.jobs = b.jobs.modify i (fun job => { job with stage := stage }) ∧
    stage ≠ .created ∧ (stage = .done → b'.state = rest job.kind)
  lastEvent : b'.lastEvent = b.lastEvent
  begins : job.stage = .created → ∀ kind, Rests kind b.coordinator → Rests job.kind b'.coordinator
  goesOn : job.stage ≠ .created → ∀ kind, Rests kind b.coordinator →
    job.kind = kind ∨ kind = .demote → Rests kind b'.coordinator

theorem advances_promote (b : CoordinatorRaftBridge) (i : Nat) (stage : JobStage) :
    b.promote i stage = b ∨ Advances b (b.promote i stage) i ⟨.promote, stage⟩ := by
  cases stage with
  | created =>
      exact .inr ⟨by decide, ⟨.sleeping, rfl, by decide, nofun⟩, rfl,
        fun _ kind h => rests_start h, fun h => absurd rfl h⟩
  | sleeping =>
      exact .inr ⟨by decide, ⟨.assigning, rfl, by decide, nofun⟩, rfl, nofun, fun _ kind h _ => h⟩
  | assigning =>
      exact .inr ⟨by decide, ⟨.done, rfl, by decide, fun _ => rfl⟩, rfl, nofun, fun _ kind h _ => h⟩
  | gathering => exact .inl rfl
  | closing => exact .inl rfl
  | done => exact .inl rfl

theorem advances_demote (b : CoordinatorRaftBridge) (i : Nat) (stage : JobStage) :
    b.demote i stage = b ∨ Advances b (b.demote i stage) i ⟨.demote, stage⟩ := by
  cases stage with
  | created =>
      rw [demote]
      split
      case isTrue =>
        exact .inr ⟨by decide, ⟨.closing, rfl, by decide, nofun⟩, rfl, fun _ kind h => rfl,
          fun h => absurd rfl h⟩
      case isFalse =>
        exact .inr ⟨by decide, ⟨.gathering, rfl, by decide, nofun⟩, rfl, fun _ kind h => rfl,
          fun h => absurd rfl h⟩
  | gathering =>
      refine .inr ⟨by decide, ⟨.closing, rfl, by decide, nofun⟩, rfl, nofun, ?_⟩
      rintro - kind h (rfl | rfl)
      · exact h
      · exact h
  | closing =>
      exact .inr ⟨by decide, ⟨.done, rfl, by decide, fun _ => rfl⟩, rfl, nofun, fun _ kind h _ => h⟩
  | sleeping => exact .inl rfl
  | assigning => exact .inl rfl
  | done => exact .inl rfl

theorem perform_resume (b : CoordinatorRaftBridge) (i : Nat) :
    b.perform (.resume i) = b ∨
      ∃ job, b.jobs[i]? = some job ∧ Advances b (b.perform (.resume i)) i job := by
  rw [perform]
  cases hjob : b.jobs[i]? with
  | none => exact .inl rfl
  | some job =>
      obtain ⟨kind, stage⟩ := job
      cases kind with
      | promote => exact (advances_promote b i stage).imp_right fun h => ⟨_, rfl, h⟩
      | demote => exact (advances_demote b i stage).imp_right fun h => ⟨_, rfl, h⟩

/-- The tasks up to the last one in the order of events that has begun, which
is of the given kind; those of the other kind no longer matter. -/
structure Turns (b : CoordinatorRaftBridge) (q : Nat) (kind : JobKind) : Prop where
  settled : ∀ x job, b.jobs[x]? = some job → x < q → job.kind ≠ kind →
    (kind = .promote → job.stage = .done) ∧ (kind = .demote → job.stage ≠ .created)
  waiting : ∀ x job, b.jobs[x]? = some job → q ≤ x → job.stage = .created
  last : q = 0 ∧ kind = .demote ∨ 0 < q ∧ (b.jobs[q - 1]?).map Job.kind = some kind

structure Inv (b : CoordinatorRaftBridge) : Prop where
  turns : ∃ q kind, b.Turns q kind ∧ Rests kind b.coordinator ∧
    (kind = .promote → b.Finished → b.state = .active)
  last : b.lastEvent = b.jobs.getLast?.map Job.kind

theorem inv_attached : ({} : CoordinatorRaftBridge).Inv :=
  ⟨⟨0, .demote, ⟨nofun, nofun, .inl ⟨rfl, rfl⟩⟩, rfl, nofun⟩, rfl⟩

/-- A task that has begun is there. -/
theorem Turns.bound {b : CoordinatorRaftBridge} {q : Nat} {kind : JobKind} (h : b.Turns q kind) :
    q ≤ b.jobs.length := by
  obtain ⟨rfl, -⟩ | ⟨hpos, hkind⟩ := h.last
  · exact Nat.zero_le _
  · obtain ⟨job, hjob, -⟩ := Option.map_eq_some_iff.mp hkind
    have hlt := (List.getElem?_eq_some_iff.mp hjob).1
    omega

theorem Inv.followsRaft {b : CoordinatorRaftBridge} (h : b.Inv) (hfinished : b.Finished) :
    b.FollowsRaft := by
  obtain ⟨⟨q, kind, hturns, hrests, hstate⟩, hlast⟩ := h
  have hq : q = b.jobs.length := by
    refine le_antisymm hturns.bound (not_lt.mp fun hlt => ?_)
    have hcreated := hturns.waiting q _ (List.getElem?_eq_getElem hlt) le_rfl
    rw [hfinished _ (List.getElem_mem hlt)] at hcreated
    cases hcreated
  have hkind : b.lastEvent = some .promote ↔ kind = .promote := by
    obtain ⟨hzero, rfl⟩ | ⟨-, hkind⟩ := hturns.last
    · rw [hlast, List.eq_nil_of_length_eq_zero (hq.symm.trans hzero)]
      exact ⟨nofun, nofun⟩
    · rw [hlast, List.getLast?_eq_getElem?, ← hq, hkind, Option.some_inj]
  rw [FollowsRaft, hkind]
  cases kind with
  | promote => exact iff_of_true ⟨hstate rfl hfinished, hrests⟩ rfl
  | demote =>
      refine iff_of_false (fun hactive => ?_) nofun
      have hrunning : b.coordinator.running = false := hrests
      have hserving := hactive.2.1
      rw [CoordinatorLife.isActive, hrunning, Bool.and_false] at hserving
      cases hserving

theorem Inv.onEvent {b : CoordinatorRaftBridge} (h : b.Inv) (kind' : JobKind) :
    (b.onEvent kind').Inv := by
  obtain ⟨⟨q, kind, hturns, hrests, -⟩, -⟩ := h
  have hlen := hturns.bound
  have hjobs : ∀ x job, (b.onEvent kind').jobs[x]? = some job →
      b.jobs[x]? = some job ∨ b.jobs.length ≤ x ∧ job = { kind := kind' } := by
    intro x job hx
    rw [CoordinatorRaftBridge.onEvent, List.getElem?_append] at hx
    split at hx
    case isTrue => exact .inl hx
    case isFalse hle =>
      obtain hmem := List.mem_of_getElem? hx
      exact .inr ⟨not_lt.mp hle, List.mem_singleton.mp hmem⟩
  refine ⟨⟨q, kind, ⟨fun x job hx hq => ?_, fun x job hx hq => ?_, ?_⟩, hrests,
    fun _ hfinished => ?_⟩, ?_⟩
  · obtain hx | ⟨hle, -⟩ := hjobs x job hx
    · exact hturns.settled x job hx hq
    · omega
  · obtain hx | ⟨-, rfl⟩ := hjobs x job hx
    · exact hturns.waiting x job hx hq
    · rfl
  · refine hturns.last.imp_right fun hlast => ⟨hlast.1, ?_⟩
    rw [CoordinatorRaftBridge.onEvent, List.getElem?_append_left (by omega)]
    exact hlast.2
  · have hdone := hfinished { kind := kind' } (List.mem_append_right _ List.mem_cons_self)
    cases hdone
  · rw [CoordinatorRaftBridge.onEvent, List.getLast?_concat]
    rfl

section Advance

variable {b b' : CoordinatorRaftBridge} {i q : Nat} {job : Job} {kind : JobKind}

theorem Advances.kinds (h : Advances b b' i job) (x : Nat) :
    (b'.jobs[x]?).map Job.kind = (b.jobs[x]?).map Job.kind := by
  obtain ⟨-, ⟨stage, hjobs, -⟩, -⟩ := h
  rw [hjobs, List.getElem?_modify]
  cases b.jobs[x]? with
  | none => rfl
  | some other =>
      refine congrArg some ?_
      split <;> rfl

/-- The other tasks stay where they are. -/
theorem Advances.other (h : Advances b b' i job) {x : Nat} {other' : Job}
    (hx : b'.jobs[x]? = some other') (hxi : x ≠ i) : b.jobs[x]? = some other' := by
  obtain ⟨-, ⟨stage, hjobs, -⟩, -⟩ := h
  rwa [hjobs, List.getElem?_modify_ne _ _ hxi.symm] at hx

/-- The task itself has gone on. -/
theorem Advances.self (h : Advances b b' i job) (hjob : b.jobs[i]? = some job) :
    ∃ job', b'.jobs[i]? = some job' ∧ job'.kind = job.kind ∧ job'.stage ≠ .created ∧
      (job'.stage = .done → b'.state = rest job.kind) := by
  obtain ⟨-, ⟨stage, hjobs, hstage, hrest⟩, -⟩ := h
  refine ⟨{ job with stage := stage }, ?_, rfl, hstage, hrest⟩
  rw [hjobs, List.getElem?_modify_eq, hjob]
  rfl

theorem Advances.active (h : Advances b b' i job) (hjob : b.jobs[i]? = some job)
    (hpromote : job.kind = .promote) (hfinished : b'.Finished) : b'.state = .active := by
  obtain ⟨job', hjob', -, -, hrest⟩ := h.self hjob
  rw [hrest (hfinished job' (List.mem_of_getElem? hjob')), hpromote]
  rfl

/-- A task goes on that has had its turn. -/
theorem Turns.advance (h : b.Turns q kind) (hadv : Advances b b' i job)
    (hjob : b.jobs[i]? = some job) (hi : i < q) : b'.Turns q kind := by
  refine ⟨fun x other hx hq hne => ?_, fun x other hx hq => ?_, ?_⟩
  · by_cases hxi : x = i
    · subst hxi
      obtain ⟨job', hjob', hsame, hbegun, -⟩ := hadv.self hjob
      rw [hjob'] at hx
      cases hx
      have hsettled := h.settled x job hjob hq (hsame ▸ hne)
      exact ⟨fun hpromote => absurd (hsettled.1 hpromote) hadv.undone, fun _ => hbegun⟩
    · exact h.settled x other (hadv.other hx hxi) hq hne
  · exact h.waiting x other (hadv.other hx (by omega)) hq
  · rw [hadv.kinds]
    exact h.last

/-- A task begins whose turn it is. -/
theorem Turns.begin (h : b.Turns q kind) (hadv : Advances b b' i job)
    (hjob : b.jobs[i]? = some job) (hi : q ≤ i) (hturn : b.InTurn (.resume i)) :
    b'.Turns (i + 1) job.kind := by
  refine ⟨fun x other hx hq hne => ?_, fun x other hx hq => ?_, ?_⟩
  · have hxi : x ≠ i := by
      rintro rfl
      obtain ⟨job', hjob', hsame, -⟩ := hadv.self hjob
      rw [hjob'] at hx
      cases hx
      exact hne hsame
    have htake : (b.jobs.take i)[x]? = some other := by
      rw [List.getElem?_take_of_lt (by omega), hadv.other hx hxi]
    exact hturn job hjob (h.waiting i job hjob hi) other (List.mem_of_getElem? htake) hne
  · exact h.waiting x other (hadv.other hx (by omega)) (by omega)
  · refine .inr ⟨Nat.succ_pos i, ?_⟩
    rw [hadv.kinds, Nat.add_sub_cancel, hjob]
    rfl

/-- A task that goes on is of the kind that is settled, or is stopping what the
last demotion has stopped. -/
theorem Turns.kind_of_advances (h : b.Turns q kind) (hadv : Advances b b' i job)
    (hjob : b.jobs[i]? = some job) (hi : i < q) :
    job.kind = kind ∨ kind = .demote ∧ job.stage ≠ .created := by
  by_contra hne
  rw [not_or, not_and_not_right] at hne
  obtain ⟨hpromote, hdemote⟩ := h.settled i job hjob hi hne.1
  cases kind with
  | promote => exact hadv.undone (hpromote rfl)
  | demote => exact hdemote rfl (hne.2 rfl)

theorem Inv.resume (h : b.Inv) (hjob : b.jobs[i]? = some job) (hturn : b.InTurn (.resume i))
    (hadv : Advances b b' i job) : b'.Inv := by
  obtain ⟨⟨q, kind, hturns, hrests, -⟩, hlast⟩ := h
  refine ⟨?_, ?_⟩
  · by_cases hi : i < q
    · have hkind := hturns.kind_of_advances hadv hjob hi
      refine ⟨q, kind, hturns.advance hadv hjob hi, ?_, fun hpromote => hadv.active hjob ?_⟩
      · by_cases hcreated : job.stage = .created
        · obtain rfl | ⟨-, hbegun⟩ := hkind
          · exact hadv.begins hcreated job.kind hrests
          · exact absurd hcreated hbegun
        · exact hadv.goesOn hcreated kind hrests (hkind.imp_right And.left)
      · obtain rfl | ⟨rfl, -⟩ := hkind
        · exact hpromote
        · cases hpromote
    · have hcreated := hturns.waiting i job hjob (not_lt.mp hi)
      exact ⟨i + 1, job.kind, hturns.begin hadv hjob (not_lt.mp hi) hturn,
        hadv.begins hcreated kind hrests, hadv.active hjob⟩
  · have hlen : b'.jobs.length = b.jobs.length := by
      obtain ⟨stage, hjobs, -⟩ := hadv.jobs
      rw [hjobs, List.length_modify]
    rw [hadv.lastEvent, hlast, List.getLast?_eq_getElem?, List.getLast?_eq_getElem?, hadv.kinds,
      hlen]

end Advance

theorem Inv.perform {b : CoordinatorRaftBridge} (h : b.Inv) {a : BridgeAction}
    (ha : b.InTurn a) : (b.perform a).Inv := by
  cases a with
  | leaderElected => exact h.onEvent .promote
  | stepDown => exact h.onEvent .demote
  | resume i =>
      obtain hsame | ⟨job, hjob, hadv⟩ := perform_resume b i
      · rw [hsame]
        exact h
      · exact h.resume hjob ha hadv

/-- Where the tasks take turns the coordinator follows the last event whenever
all of them have finished. -/
theorem follows_raft {actions : List BridgeAction} (h : Steps perform InTurn {} actions) :
    Always perform (fun b => b.Finished → b.FollowsRaft) {} actions := by
  have hinv : Along perform Inv _ {} actions :=
    along_of_invariant (fun b a hb ha => hb.perform ha) inv_attached h
  exact hinv.imp (fun b hb => hb.followsRaft) fun _ _ _ => trivial

instance : ∀ b, DecidablePred (InTurn b)
  | b, .resume i => inferInstanceAs (Decidable (∀ job ∈ b.jobs[i]?, _))
  | _, .leaderElected => inferInstanceAs (Decidable True)
  | _, .stepDown => inferInstanceAs (Decidable True)

/-- Leadership is won, lost and won again. -/
theorem follows_raft_regained : Always perform (fun b => b.Finished → b.FollowsRaft) {}
    [.leaderElected, .resume 0, .stepDown, .resume 1, .resume 0, .resume 0, .leaderElected,
      .resume 1, .resume 1, .resume 2, .resume 2, .resume 2] :=
  follows_raft (by decide +kernel)

/-- The coordinator is started again before the end of a demotion, which then
closes the new queue. -/
theorem not_follows_raft : ¬ ∀ actions : List BridgeAction,
    Always perform (fun b => b.Finished → b.FollowsRaft) {} actions := by
  intro h
  have hlast := (h [.leaderElected, .resume 0, .resume 0, .resume 0, .stepDown, .resume 1,
    .leaderElected, .resume 2, .resume 1, .resume 1, .resume 2, .resume 2]).last
  revert hlast
  decide +kernel

end CoordinatorRaftBridge

end Prodinamik.Grid
