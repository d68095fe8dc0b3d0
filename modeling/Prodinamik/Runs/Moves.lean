import Mathlib.Logic.Relation
import Prodinamik.Runs.Resume

namespace Prodinamik.Runs

open Machine Relation

/-- The run directories and the recorded transitions stay as they are. -/
structure Quiet (s s' : AsyncEngine) : Prop where
  active : s'.disk.active = s.disk.active
  archive : s'.disk.archive = s.disk.archive
  events : s'.events = s.events

theorem Quiet.refl (s : AsyncEngine) : Quiet s s := ⟨rfl, rfl, rfl⟩

theorem Quiet.trans {s₁ s₂ s₃ : AsyncEngine} (h : Quiet s₁ s₂) (h' : Quiet s₂ s₃) :
    Quiet s₁ s₃ where
  active := h'.active.trans h.active
  archive := h'.archive.trans h.archive
  events := h'.events.trans h.events

/-- A run was read with a profile that allowed the transition; its metadata was
written anew and the transition was recorded. -/
structure Moved (registry : Registry) (s s' : AsyncEngine) (slug toState : String)
    (overrides : List Override) (now : DateTime) (dir : RunDir) (m : RunMeta)
    (p : ProductProfile) : Prop where
  here : s.disk.active slug = some dir
  read : Disk.readMeta slug dir = .ok (some m)
  profile : registry.profile m.profile = some p
  allowed : checkTransition p m.leaving toState overrides = .ok ()
  active : s'.disk.active =
    Function.update s.disk.active slug (some ⟨some (m.updated toState now).write⟩)
  archive : s'.disk.archive = s.disk.archive
  events : s'.events =
    Function.update s.events slug (s.events slug ++ [(m.state, toState)])

/-- The transition is one of the machine, out of a state that is not terminal. -/
theorem Moved.step {registry : Registry} {s s' : AsyncEngine} {slug toState : String}
    {overrides : List Override} {now : DateTime} {dir : RunDir} {m : RunMeta} {p : ProductProfile}
    (h : Moved registry s s' slug toState overrides now dir m p) {sm : StateMachine}
    (hsm : p.stateMachine = some sm) : sm.Step m.state toState := by
  have hallowed := h.allowed
  rw [checkTransition, Option.bind_some, hsm] at hallowed
  simp only at hallowed
  split at hallowed
  · cases hallowed
  · rename_i hcan
    rw [← m.leaving_state]
    exact StateMachine.canTransition_step hcan

/-- One thing that the engine does to the runs. -/
inductive Move (registry : Registry) : AsyncEngine → AsyncEngine → Prop
  | quiet {s s' : AsyncEngine} (h : Quiet s s') : Move registry s s'
  | moved {s s' : AsyncEngine} {slug toState : String} {overrides : List Override}
      {now : DateTime} {dir : RunDir} {m : RunMeta} {p : ProductProfile}
      (h : Moved registry s s' slug toState overrides now dir m p) : Move registry s s'

abbrev Moves (registry : Registry) : AsyncEngine → AsyncEngine → Prop :=
  ReflTransGen (Move registry)

theorem Move.refl {registry : Registry} (s : AsyncEngine) : Move registry s s :=
  .quiet (.refl s)

theorem Quiet.move {registry : Registry} {s s₁ s' : AsyncEngine} (h : Quiet s s₁)
    (hmove : Move registry s₁ s') : Move registry s s' := by
  cases hmove with
  | quiet hquiet => exact .quiet (h.trans hquiet)
  | @moved slug toState overrides now dir m p hmoved =>
      have hmoved' : Moved registry s s' slug toState overrides now dir m p := by
        refine ⟨?_, hmoved.read, hmoved.profile, hmoved.allowed, ?_, ?_, ?_⟩
        · rw [← h.active, hmoved.here]
        · rw [hmoved.active, h.active]
        · rw [hmoved.archive, h.archive]
        · rw [hmoved.events, h.events]
      exact .moved hmoved'

namespace AsyncEngine

variable (digest : WalEntry → String) (registry : Registry)

/-- A transition raises and changes nothing, or it is taken. -/
theorem doTransition_cases (s : AsyncEngine) (slug toState : String) (overrides : List Override)
    (t : Moment) :
    (∃ e, s.doTransition digest registry slug toState overrides t = (.error e, s)) ∨
      ∃ m' dir m p, (s.doTransition digest registry slug toState overrides t).1 = .ok m' ∧
        Moved registry s (s.doTransition digest registry slug toState overrides t).2 slug toState
          overrides t.now dir m p := by
  rw [doTransition]
  cases hdir : s.disk.active slug with
  | none =>
      refine .inl ?_
      split
      · exact ⟨_, rfl⟩
      · exact ⟨_, rfl⟩
      · split
        · exact ⟨_, rfl⟩
        · rw [updateState, hdir]
          exact ⟨_, rfl⟩
  | some dir =>
      have hget : s.disk.getRun slug = Disk.readMeta slug dir := by rw [Disk.getRun, hdir]
      rw [hget]
      cases hread : Disk.readMeta slug dir with
      | error e => exact .inl ⟨_, rfl⟩
      | ok stored =>
          cases stored with
          | none => exact .inl ⟨_, rfl⟩
          | some m =>
              simp only
              cases hprofile : registry.profile m.profile with
              | none => exact .inl ⟨_, rfl⟩
              | some p =>
                  simp only
                  obtain ⟨e, -, hupdate⟩ | ⟨hcheck, writes, hupdate, hactive, harchive⟩ :=
                    updateState_read digest hdir hread p toState overrides t.now
                      t.walTime
                  · rw [hupdate]
                    exact .inl ⟨_, rfl⟩
                  · rw [hupdate]
                    exact .inr ⟨_, dir, m, p, rfl, hdir, hread, hprofile, hcheck, hactive,
                      harchive, rfl⟩

theorem doTransition_move (s : AsyncEngine) (slug toState : String) (overrides : List Override)
    (t : Moment) : Move registry s (s.doTransition digest registry slug toState overrides t).2 := by
  obtain ⟨e, he⟩ | ⟨m', dir, m, p, -, hmoved⟩ :=
    s.doTransition_cases digest registry slug toState overrides t
  · rw [he]
    exact .quiet (.refl s)
  · exact .moved hmoved

theorem touch_quiet (s : AsyncEngine) (slug : String) (t : Moment) : Quiet s (s.touch slug t) :=
  ⟨rfl, rfl, rfl⟩

theorem trackEntry_quiet (s : AsyncEngine) (slug state : String) (time : Int) :
    Quiet s (s.trackEntry slug state time) :=
  ⟨rfl, rfl, rfl⟩

theorem transitionWithHitl_move (s : AsyncEngine) (slug toState : String) (hitlLoopCount : Nat)
    (t : Moment) : Move registry s
      (s.transitionWithHitl digest registry slug toState hitlLoopCount t).2 := by
  have hmove := s.doTransition_move digest registry slug toState [] t
  rw [transitionWithHitl]
  split
  · rename_i heq
    rwa [heq] at hmove
  · rename_i heq
    rw [heq] at hmove
    simp only
    split_ifs
    all_goals (split <;> try split_ifs) <;> exact hmove

theorem resumeRun_move (s : AsyncEngine) (slug : String) (answers : List String) (t : Moment) :
    Move registry s (s.resumeRun digest registry slug answers t).2 := by
  rw [resumeRun]
  cases s.disk.getRun slug with
  | error e => exact .refl s
  | ok stored =>
      cases stored with
      | none => exact .refl s
      | some m =>
          simp only
          cases (registry.profile m.profile).bind ProductProfile.stateMachine with
          | none => exact .refl s
          | some sm =>
              simp only
              split_ifs with hpause hnext
              · exact .quiet ((s.touch_quiet slug t).trans ((s.touch slug t).touch_quiet slug t))
              · refine (s.touch_quiet slug t).move ?_
                have hmove := (s.touch slug t).doTransition_move digest registry slug
                  ((sm.evaluateResumeTransition m.state answers).getD "")
                  (namedOverrides sm m.state ((sm.evaluateResumeTransition m.state answers).getD ""))
                  t
                split
                · rename_i heq
                  rwa [heq] at hmove
                · rename_i heq
                  rwa [heq] at hmove
              · exact .refl s

theorem proceed_move (s : AsyncEngine) (m : RunMeta) (t : Moment) (names : List String) :
    Move registry s (s.proceed digest registry m t names) := by
  induction names with
  | nil => exact .refl s
  | cons next rest ih =>
      rw [proceed]
      split
      · exact ih
      · have hmove := s.doTransition_move digest registry m.slug next [] t
        split
        · rename_i heq
          rw [heq] at hmove
          exact hmove
        · exact ih

theorem abort_move (s : AsyncEngine) (m : RunMeta) (t : Moment) :
    Move registry s (s.abort digest registry m t) := by
  have hmove := s.doTransition_move digest registry m.slug "cancelled" [.projectAbandoned true] t
  rw [abort]
  split
  · rename_i heq
    rw [heq] at hmove
    exact hmove
  · exact s.doTransition_move digest registry m.slug "archived" [] t

theorem onTimeout_move (s : AsyncEngine) (m : RunMeta) (sm : StateMachine)
    (state : StateDefinition) (t : Moment) :
    Move registry s (s.onTimeout digest registry m sm state t) := by
  rw [onTimeout]
  split_ifs
  · exact s.proceed_move digest registry m t _
  · exact s.abort_move digest registry m t
  · exact s.resumeRun_move digest registry m.slug _ t
  · exact .refl s
  · split
    · exact .refl s
    · split_ifs
      · exact .refl s
      · exact s.doTransition_move digest registry m.slug _ [] t

variable (fromisoformat : String → Option Int)

theorem checkTimeout_move (now : Int) (s : AsyncEngine) (m : RunMeta) (t : Moment) :
    Move registry s (s.checkTimeout digest registry fromisoformat now m t) := by
  rw [checkTimeout]
  split
  · exact .refl s
  · split
    · exact .refl s
    · simp only
      split_ifs
      · exact .refl s
      · split
        · exact .refl s
        · rename_i time _
          have hquiet := s.trackEntry_quiet m.slug m.state time
          split_ifs
          · exact hquiet.move ((s.trackEntry m.slug m.state time).onTimeout_move digest registry
              m _ _ t)
          · exact .quiet hquiet

theorem checkTimeouts_moves (s : AsyncEngine) (dirs : List String) (now : Int)
    (times : String → Moment) :
    Moves registry s (s.checkTimeouts digest registry fromisoformat dirs now times) := by
  rw [checkTimeouts]
  split
  · exact .refl
  · rename_i metas hmetas
    clear hmetas
    induction metas generalizing s with
    | nil => exact .refl
    | cons m metas ih =>
        exact .head (s.checkTimeout_move digest registry fromisoformat now m (times m.slug)) (ih _)

end AsyncEngine

end Prodinamik.Runs
