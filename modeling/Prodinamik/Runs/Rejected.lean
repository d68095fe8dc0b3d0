import Prodinamik.Runs.HitlChain

namespace Prodinamik.Runs

open Machine

/-- The calls that can reject a transition. -/
inductive Attempt
  | update (slug toState : String) (profile : Option ProductProfile) (overrides : List Override)
      (t : Moment)
  | transition (slug toState : String) (t : Moment)
  | resume (slug : String) (answers : List String) (t : Moment)

/-- What is kept of a run: its content-object.md, its snapshot entry with the
counter in it, the WAL files, its events and its entry times. -/
structure Untouched (h h' : HitlEngine) (slug : String) : Prop where
  content : (h'.engine.disk.active slug).bind RunDir.content =
    (h.engine.disk.active slug).bind RunDir.content
  archived : (h'.engine.disk.archive slug).bind RunDir.content =
    (h.engine.disk.archive slug).bind RunDir.content
  entry : h'.engine.disk.loadSnapshot.lookup slug = h.engine.disk.loadSnapshot.lookup slug
  loopCount : h'.loopCount slug = h.loopCount slug
  wal : h'.engine.disk.wal = h.engine.disk.wal
  events : h'.engine.events slug = h.engine.events slug
  entered : h'.engine.entered slug = h.engine.entered slug

section

variable (digest : WalEntry → String) (registry : Registry)

namespace Attempt

def slug : Attempt → String
  | .update slug .. => slug
  | .transition slug .. => slug
  | .resume slug .. => slug

/-- update_state raises, transition_with_hitl has no success or resume_run answers
transition_failed. -/
def Rejected (h : HitlEngine) : Attempt → Prop
  | .update slug toState profile overrides t =>
      ∃ e, updateState digest h.engine.disk slug toState profile overrides t.now t.walTime =
        .error e
  | .transition slug toState t => ∃ e, (h.transition digest registry slug toState t).1 = .failed e
  | .resume slug answers t =>
      ∃ e, (h.resume digest registry slug answers t).1 = .ok (.transitionFailed e)

def perform (h : HitlEngine) : Attempt → HitlEngine
  | .update slug toState profile overrides t =>
      { h with
        engine :=
          { h.engine with
            disk := h.engine.disk.performAll
              ((Op.update slug toState profile overrides t.now t.walTime).writes digest
                h.engine.disk) } }
  | .transition slug toState t => h.call digest registry (.transition slug toState t)
  | .resume slug answers t => h.call digest registry (.resume slug answers t)

/-- A rejected attempt leaves no trace. -/
def Traceless (h : HitlEngine) (a : Attempt) : Prop :=
  a.Rejected digest registry h → Untouched h (a.perform digest registry h) a.slug

end Attempt

/-- The run is paused and its answers lead to a state that it is not taken to. -/
structure Misled (d : Disk) (slug : String) (answers : List String) (m : RunMeta)
    (sm : StateMachine) : Prop where
  paused : Paused registry d slug m sm
  next : nextState sm m answers ≠ ""
  closed : d.active slug = none ∨
    ∃ e, checkTransition (registry.profile m.profile) m.leaving (nextState sm m answers)
      (AsyncEngine.namedOverrides sm m.state (nextState sm m answers)) = .error e

/-- An attempt to resume a run with answers that lead nowhere. -/
def Attempt.Misleads (h : HitlEngine) : Attempt → Prop
  | .resume slug answers _ => ∃ m sm, Misled registry h.engine.disk slug answers m sm
  | _ => False

end

variable {digest : WalEntry → String} {registry : Registry} {h : HitlEngine}

theorem Untouched.of_engine {h' : HitlEngine} {slug : String} (hengine : h'.engine = h.engine)
    (hcount : h'.loopCount slug = h.loopCount slug) : Untouched h h' slug := by
  constructor
  case loopCount => exact hcount
  all_goals rw [hengine]

/-- An error of the transition lies before each write. -/
theorem doTransition_error {s s' : AsyncEngine} {slug toState : String}
    {overrides : List Override} {t : Moment} {e : String}
    (herror : s.doTransition digest registry slug toState overrides t = (.error e, s')) :
    s' = s := by
  rw [AsyncEngine.doTransition] at herror
  split at herror
  case h_1 => exact (congrArg Prod.snd herror).symm
  case h_2 => exact (congrArg Prod.snd herror).symm
  case h_3 =>
    split at herror
    case h_1 => exact (congrArg Prod.snd herror).symm
    case h_2 =>
      split at herror
      case h_1 => exact (congrArg Prod.snd herror).symm
      case h_2 => cases congrArg Prod.fst herror

theorem transitionWithHitl_failed {s : AsyncEngine} {slug toState : String} {count : Nat}
    {t : Moment} {e : String}
    (hfailed : (s.transitionWithHitl digest registry slug toState count t).1 = .failed e) :
    (s.transitionWithHitl digest registry slug toState count t).2 = s := by
  rw [AsyncEngine.transitionWithHitl] at hfailed ⊢
  cases hmove : s.doTransition digest registry slug toState [] t with
  | mk result s' =>
      cases result with
      | error e => exact doTransition_error hmove
      | ok m =>
          rw [hmove] at hfailed
          simp only at hfailed
          split at hfailed
          case h_1 => cases hfailed
          case h_2 =>
            split_ifs at hfailed

/-- The counter goes up only for a run that is paused. -/
theorem paused_of_counted {s : AsyncEngine} {slug : String} {answers : List String} {t : Moment}
    (hcounted : Resumed.counted (s.resumeRun digest registry slug answers t).1 = true) :
    ∃ m sm, Paused registry s.disk slug m sm := by
  rw [AsyncEngine.resumeRun] at hcounted
  cases hrun : s.disk.getRun slug with
  | error e => simp [hrun, Resumed.counted] at hcounted
  | ok found =>
      cases found with
      | none => simp [hrun, Resumed.counted] at hcounted
      | some m =>
          cases hmachine : (registry.profile m.profile).bind ProductProfile.stateMachine with
          | none => simp [hrun, hmachine, Resumed.counted] at hcounted
          | some sm =>
              by_cases hpause : sm.isPauseState m.state = true
              · exact ⟨m, sm, hrun, hmachine, hpause⟩
              · simp [hrun, hmachine, hpause, Resumed.counted] at hcounted

/-- update_state raises for a run that is archived or whose transition is refused. -/
theorem updateState_error_iff (digest : WalEntry → String) {d : Disk} {slug : String} {m : RunMeta}
    (hrun : d.getRun slug = .ok (some m)) (profile : Option ProductProfile) (toState : String)
    (overrides : List Override) (now walTime : DateTime) :
    (∃ e, updateState digest d slug toState profile overrides now walTime = .error e) ↔
      d.active slug = none ∨ ∃ e, checkTransition profile m.leaving toState overrides = .error e := by
  cases hdir : d.active slug with
  | none =>
      refine iff_of_true ⟨runNotFound slug, ?_⟩ (.inl rfl)
      rw [updateState, hdir]
      rfl
  | some dir =>
      have hread : Disk.readMeta slug dir = .ok (some m) := by
        rwa [Disk.getRun, hdir] at hrun
      obtain ⟨e, hcheck, hupdate⟩ | ⟨hcheck, writes, hupdate, -⟩ :=
        updateState_read digest hdir hread profile toState overrides now walTime
      · exact iff_of_true ⟨e, hupdate⟩ (.inr ⟨e, hcheck⟩)
      · rw [hupdate, hcheck]
        simp

/-- A paused run is refused if its answers lead to a state that it is not taken to. -/
theorem transitionFailed_of_paused {s : AsyncEngine} {slug : String} {m : RunMeta}
    {sm : StateMachine} (hpaused : Paused registry s.disk slug m sm) (answers : List String)
    (t : Moment) :
    (∃ e, (s.resumeRun digest registry slug answers t).1 = .ok (.transitionFailed e)) ↔
      nextState sm m answers ≠ "" ∧ (s.disk.active slug = none ∨
        ∃ e, checkTransition (registry.profile m.profile) m.leaving (nextState sm m answers)
          (AsyncEngine.namedOverrides sm m.state (nextState sm m answers)) = .error e) := by
  rw [resumeRun_of_paused digest hpaused]
  by_cases hnext : nextState sm m answers = ""
  · simp [hnext]
  have htouched : (s.touch slug t).disk.getRun slug = .ok (some m) := hpaused.run
  have hupdate := updateState_error_iff digest htouched (registry.profile m.profile)
    (nextState sm m answers) (AsyncEngine.namedOverrides sm m.state (nextState sm m answers))
    t.now t.walTime
  rw [show (s.touch slug t).disk.active slug = s.disk.active slug from rfl] at hupdate
  rw [← hupdate, if_neg hnext]
  cases updateState digest (s.touch slug t).disk slug (nextState sm m answers)
      (registry.profile m.profile)
      (AsyncEngine.namedOverrides sm m.state (nextState sm m answers)) t.now t.walTime with
  | error e => simp [hnext]
  | ok result => simp [hnext, resumedAt_ne]

theorem transitionFailed_iff {s : AsyncEngine} {slug : String} {answers : List String}
    {t : Moment} :
    (∃ e, (s.resumeRun digest registry slug answers t).1 = .ok (.transitionFailed e)) ↔
      ∃ m sm, Misled registry s.disk slug answers m sm := by
  constructor
  · rintro ⟨e, hfailed⟩
    obtain ⟨m, sm, hpaused⟩ := paused_of_counted (by rw [hfailed]; rfl)
    obtain ⟨hnext, hclosed⟩ := (transitionFailed_of_paused hpaused answers t).mp ⟨e, hfailed⟩
    exact ⟨m, sm, hpaused, hnext, hclosed⟩
  · rintro ⟨m, sm, hmisled⟩
    exact (transitionFailed_of_paused hmisled.paused answers t).mpr ⟨hmisled.next, hmisled.closed⟩

/-- A refused resumption has been counted. -/
theorem loopCount_of_failed {slug : String} {answers : List String} {t : Moment} {e : String}
    (hfailed : (h.resume digest registry slug answers t).1 = .ok (.transitionFailed e)) :
    (h.call digest registry (.resume slug answers t)).loopCount slug = h.loopCount slug + 1 := by
  simp only [HitlEngine.call, hfailed]
  exact Function.update_self ..

/-- A rejected transition leaves no trace exactly if it is no resumption of a paused
run whose answers lead to a state that the run is not taken to. -/
theorem Attempt.traceless_iff (digest : WalEntry → String) (registry : Registry) (h : HitlEngine)
    (a : Attempt) : a.Traceless digest registry h ↔ ¬ a.Misleads registry h := by
  cases a with
  | update slug toState profile overrides t =>
      refine iff_of_true ?_ id
      rintro ⟨e, herror⟩
      refine Untouched.of_engine ?_ rfl
      rw [perform, Op.writes, herror]
      rfl
  | transition slug toState t =>
      refine iff_of_true ?_ id
      rintro ⟨e, hfailed⟩
      exact Untouched.of_engine (transitionWithHitl_failed hfailed) rfl
  | resume slug answers t =>
      constructor
      · intro htraceless hmisled
        obtain ⟨e, hfailed⟩ := transitionFailed_iff.mpr hmisled
        have hcount := (htraceless ⟨e, hfailed⟩).loopCount
        exact Nat.succ_ne_self _ ((loopCount_of_failed hfailed).symm.trans hcount)
      · rintro hnot ⟨e, hfailed⟩
        exact absurd (transitionFailed_iff.mp ⟨e, hfailed⟩) hnot

/-- A review is approved from the third iteration on. -/
def iterating : StateMachine where
  config :=
    { states :=
        [("draft", .once "draft" .initial),
          ("review", HitlEngine.asking (.once "review" .pause)
            { resumeTransitions := [("approve", "done")] }),
          ("done", .once "done" .terminal)]
      transitions :=
        [{ fromState := "draft", toState := "review" },
          { fromState := "review", toState := "done", condition := some "iteration_count >= 3" }]
      nodup := by decide }
  accepted := by decide

def iterations : Registry where
  profiles := [⟨"reviews", some iterating⟩]
  nodup := by decide

/-- The approval is refused and counted. -/
theorem Attempt.not_traceless :
    ¬ (Attempt.resume "a" ["approve"] reviewTime).Traceless (fun _ => "") iterations
      ⟨reviewEngine, fun _ => 0, fun _ => {}⟩ := by
  intro htraceless
  have hcount := (htraceless ⟨"Transition review → done rejected: " ++
    "Transition condition not met: iteration_count >= 3", by decide +kernel⟩).loopCount
  revert hcount
  decide +kernel

end Prodinamik.Runs
