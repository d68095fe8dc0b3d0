import Prodinamik.Machine.Graph
import Prodinamik.Runs.Moves

namespace Prodinamik.Runs

open Machine

/-- A defined state that a declared transition leads to. -/
structure Usable (sm : StateMachine) (a b : String) : Prop where
  defined : (sm.config.state b).isSome = true
  edge : sm.config.Edge a b

theorem usable_of_edge {sm : StateMachine} {a b : String} (h : sm.config.Edge a b) :
    Usable sm a b := by
  obtain ⟨t, ht, hfrom, hto⟩ := h
  exact ⟨hto ▸ (sm.declared ht).1, t, ht, hfrom, hto⟩

/-- The targets that a state names for the answers of its pause and for its
timeout are usable. -/
def TargetsUsable (sm : StateMachine) : Prop :=
  ∀ e ∈ sm.config.states,
    (∀ hitl ∈ e.2.hitl, ∀ entry ∈ hitl.resumeTransitions, Usable sm e.1 entry.2) ∧
      ∀ target ∈ e.2.temporalOnTimeout, Usable sm e.1 target

/-- The runs and their recorded transitions are as they were, or one run has
gone to a usable state of the machine of the profile that it is read with. -/
def Declared (registry : Registry) (s s' : AsyncEngine) : Prop :=
  Quiet s s' ∨ ∃ slug toState overrides now dir m p,
    Moved registry s s' slug toState overrides now dir m p ∧
      ∀ sm ∈ p.stateMachine, Usable sm m.state toState

theorem Move.declared {registry : Registry} {s s' : AsyncEngine} (h : Move registry s s') :
    Declared registry s s' := by
  cases h with
  | quiet hquiet => exact .inl hquiet
  | moved hmoved =>
      exact .inr ⟨_, _, _, _, _, _, _, hmoved, fun sm hsm => usable_of_edge (hmoved.step hsm).1⟩

section

variable (digest : WalEntry → String) (registry : Registry) (fromisoformat : String → Option Int)

/-- What becomes of the targets that a run's state names: only transitions that
are declared are taken, and a target without one is refused and leaves the
runs as they are. -/
structure TargetsChecked (s : AsyncEngine) (slug : String) (m : RunMeta) (sm : StateMachine)
    (t : Moment) : Prop where
  resumed : ∀ answers, Declared registry s (s.resumeRun digest registry slug answers t).2
  resumeRefused : ∀ answers, sm.isPauseState m.state = true → nextState sm m answers ≠ "" →
    ¬ sm.config.Edge m.state (nextState sm m answers) →
      (∃ e, (s.resumeRun digest registry slug answers t).1 = .ok (.transitionFailed e)) ∧
        Quiet s (s.resumeRun digest registry slug answers t).2
  timedOut : ∀ now,
    Declared registry s (s.checkTimeout digest registry fromisoformat now m t)
  timeoutRefused : slug = m.slug → ∀ state ∈ sm.config.state m.state, state.stateType ≠ .pause →
    (∀ target ∈ state.temporalOnTimeout, ¬ sm.config.Edge m.state target) → ∀ now,
      Quiet s (s.checkTimeout digest registry fromisoformat now m t)
  proceeds : ∀ next ∈ sm.nextStates m.state, Usable sm m.state next

end

variable {digest : WalEntry → String} {registry : Registry} {fromisoformat : String → Option Int}

variable (digest) in
theorem doTransition_refused {s : AsyncEngine} {slug toState : String} {m : RunMeta}
    {sm : StateMachine} (hrun : s.disk.getRun slug = .ok (some m))
    (hmachine : (registry.profile m.profile).bind ProductProfile.stateMachine = some sm)
    (hedge : ¬ sm.config.Edge m.state toState) (overrides : List Override) (t : Moment) :
    ∃ e, s.doTransition digest registry slug toState overrides t = (.error e, s) := by
  obtain hrefused | ⟨_, dir, m', p, -, hmoved⟩ :=
    s.doTransition_cases digest registry slug toState overrides t
  · exact hrefused
  · rw [Disk.getRun, hmoved.here] at hrun
    obtain rfl : m' = m := Option.some.inj (Except.ok.inj (hmoved.read.symm.trans hrun))
    rw [hmoved.profile, Option.bind_some] at hmachine
    exact absurd (hmoved.step hmachine).1 hedge

theorem resumeRun_refused {s : AsyncEngine} {slug : String} {m : RunMeta} {sm : StateMachine}
    (h : Paused registry s.disk slug m sm) {answers : List String}
    (hnext : nextState sm m answers ≠ "")
    (hedge : ¬ sm.config.Edge m.state (nextState sm m answers)) (t : Moment) :
    (∃ e, (s.resumeRun digest registry slug answers t).1 = .ok (.transitionFailed e)) ∧
      Quiet s (s.resumeRun digest registry slug answers t).2 := by
  have hrun : (s.touch slug t).disk.getRun slug = .ok (some m) := h.run
  obtain ⟨e, he⟩ := doTransition_refused digest hrun h.machine hedge
    (AsyncEngine.namedOverrides sm m.state (nextState sm m answers)) t
  have hresume : s.resumeRun digest registry slug answers t =
      (.ok (.transitionFailed e), s.touch slug t) := by
    rw [AsyncEngine.resumeRun, h.run]
    simp only [h.machine, h.pause, if_true]
    rw [nextState] at he hnext
    rw [if_neg hnext, he]
  rw [hresume]
  exact ⟨⟨e, rfl⟩, s.touch_quiet slug t⟩

theorem onTimeout_refused {s : AsyncEngine} {m : RunMeta} {sm : StateMachine}
    {state : StateDefinition} (hrun : s.disk.getRun m.slug = .ok (some m))
    (hmachine : (registry.profile m.profile).bind ProductProfile.stateMachine = some sm)
    (hpause : state.stateType ≠ .pause)
    (hedge : ∀ target ∈ state.temporalOnTimeout, ¬ sm.config.Edge m.state target) (t : Moment) :
    s.onTimeout digest registry m sm state t = s := by
  rw [AsyncEngine.onTimeout]
  rw [if_neg hpause]
  cases htarget : state.temporalOnTimeout with
  | none => rfl
  | some target =>
      simp only
      split_ifs
      · rfl
      · obtain ⟨e, he⟩ := doTransition_refused digest hrun hmachine
          (hedge target htarget) [] t
        rw [he]

theorem checkTimeout_refused {s : AsyncEngine} {m : RunMeta} {sm : StateMachine}
    {state : StateDefinition} (hrun : s.disk.getRun m.slug = .ok (some m))
    (hmachine : (registry.profile m.profile).bind ProductProfile.stateMachine = some sm)
    (hstate : sm.config.state m.state = some state) (hpause : state.stateType ≠ .pause)
    (hedge : ∀ target ∈ state.temporalOnTimeout, ¬ sm.config.Edge m.state target) (now : Int)
    (t : Moment) : Quiet s (s.checkTimeout digest registry fromisoformat now m t) := by
  rw [AsyncEngine.checkTimeout, hmachine]
  simp only [hstate]
  split_ifs
  · exact .refl s
  · split
    · exact .refl s
    · rename_i time _
      have hquiet := s.trackEntry_quiet m.slug m.state time
      have hread : (s.trackEntry m.slug m.state time).disk.getRun m.slug = .ok (some m) := hrun
      split_ifs
      · rw [onTimeout_refused hread hmachine hpause hedge t]
        exact hquiet
      · exact hquiet

theorem nextStates_usable {sm : StateMachine} {a next : String} (h : next ∈ sm.nextStates a) :
    Usable sm a next := by
  obtain ⟨t, ht, hto⟩ := List.mem_map.mp h
  exact usable_of_edge (StateMachineConfig.edge_iff.mpr ⟨t, ht, hto⟩)

/-- The targets that a state names are not validated, but they are checked when
a run goes to them. -/
theorem targets_checked {s : AsyncEngine} {slug : String} {m : RunMeta} {sm : StateMachine}
    (hrun : s.disk.getRun slug = .ok (some m))
    (hmachine : (registry.profile m.profile).bind ProductProfile.stateMachine = some sm)
    (t : Moment) : TargetsChecked digest registry fromisoformat s slug m sm t where
  resumed _ := (s.resumeRun_move digest registry slug _ t).declared
  resumeRefused _ hpause hnext hedge := resumeRun_refused ⟨hrun, hmachine, hpause⟩ hnext hedge t
  timedOut now := (s.checkTimeout_move digest registry fromisoformat now m t).declared
  timeoutRefused hslug _ hstate hpause hedge now :=
    checkTimeout_refused (hslug ▸ hrun) hmachine hstate hpause hedge now t
  proceeds _ hnext := nextStates_usable hnext

/-- A translation names states for a rejection and for its timeout that no
transition leads to. -/
def translating : StateMachine where
  config :=
    { states :=
        [("source", { StateDefinition.once "source" .initial with
            timeoutSeconds := some 60
            temporalOnTimeout := some "expired" }),
          ("proofs", { StateDefinition.once "proofs" .pause with
            hitl := some { resumeTransitions := [("yes", "printed"), ("no", "source")] } }),
          ("printed", .once "printed" .terminal)]
      transitions :=
        [{ fromState := "source", toState := "proofs" },
          { fromState := "proofs", toState := "printed" }]
      nodup := by decide }
  accepted := by decide

def translations : Registry where
  profiles := [⟨"translations", some translating⟩]
  nodup := by decide

def proofsMeta : RunMeta where
  slug := "a"
  profile := "translations"
  title := "A"
  state := "proofs"
  version := 1

def proofsEngine : AsyncEngine where
  disk := { active := fun slug => if slug = "a" then some ⟨some proofsMeta.write⟩ else none }

theorem proofs_run : proofsEngine.disk.getRun "a" = .ok (some proofsMeta) := by decide +kernel

theorem targets_checked_proofs : proofsEngine.disk.getRun "a" = .ok (some proofsMeta) ∧
    (translations.profile proofsMeta.profile).bind ProductProfile.stateMachine = some translating ∧
    TargetsChecked (fun _ => "") translations (fun _ => none) proofsEngine "a" proofsMeta
      translating reviewTime :=
  ⟨proofs_run, rfl, targets_checked proofs_run rfl reviewTime⟩

theorem not_targets_usable : ¬ ∀ sm : StateMachine, TargetsUsable sm := by
  intro h
  have htarget := (h translating _ (List.mem_cons_of_mem _ List.mem_cons_self)).1 _ rfl _
    (List.mem_cons_of_mem _ List.mem_cons_self)
  obtain ⟨t, ht, hfrom, hto⟩ := htarget.edge
  revert t
  decide

end Prodinamik.Runs
