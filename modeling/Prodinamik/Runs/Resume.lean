import Prodinamik.Runs.Engine

namespace Prodinamik.Runs

open Machine

/-- The metadata that update_state leaves. -/
def RunMeta.updated (m : RunMeta) (toState : String) (now : DateTime) : RunMeta :=
  { m.leaving with
    state := toState
    updatedAt := now.isoformat
    version := m.leaving.version + 1 }

/-- The runtime that update_state starts from. -/
def RunMeta.runtime (m : RunMeta) : RuntimeState :=
  { currentState := m.leaving.state
    version := m.leaving.version
    iterationCount := m.leaving.iterationCount }

theorem RunMeta.leaving_state (m : RunMeta) : m.leaving.state = m.state := by
  rw [leaving]
  split <;> rfl

variable {digest : WalEntry → String}

variable (digest) in
/-- An update of a run that can be read is a check and then a new file. -/
theorem updateState_read {d : Disk} {slug : String} {dir : RunDir} {m : RunMeta}
    (hdir : d.active slug = some dir) (hread : Disk.readMeta slug dir = .ok (some m))
    (profile : Option ProductProfile) (toState : String) (overrides : List Override)
    (now walTime : DateTime) :
    (∃ e, checkTransition profile m.leaving toState overrides = .error e ∧
      updateState digest d slug toState profile overrides now walTime = .error e) ∨
    (checkTransition profile m.leaving toState overrides = .ok () ∧ ∃ writes,
      updateState digest d slug toState profile overrides now walTime =
        .ok (writes, m.updated toState now) ∧
      (d.performAll writes).active =
        Function.update d.active slug (some ⟨some (m.updated toState now).write⟩) ∧
      (d.performAll writes).archive = d.archive) := by
  rw [updateState, hdir]
  simp only [hread]
  cases hcheck : checkTransition profile m.leaving toState overrides with
  | error e => exact .inl ⟨e, rfl, rfl⟩
  | ok u =>
      refine .inr ⟨rfl, _, rfl, ?_, rfl⟩
      simp [Disk.performAll, Disk.perform, appendWal, updateSnapshot, hdir, RunMeta.updated]

/-- Everything but the condition of the transition lets it through, and the two
runtimes judge the condition differently. -/
structure Contested (sm : StateMachine) (a b : String) (rt rt' : RuntimeState) : Prop where
  source : ∃ state ∈ sm.config.state a, state.stateType ≠ .terminal
  target : ∃ state ∈ sm.config.state b, ¬ (a = b ∧ ∃ k ∈ state.maxReentries, rt.reentryCount ≥ k)
  declared : ∃ t ∈ (sm.config.outgoing a).find? fun t => t.toState = b, t.requiresHuman = false ∧
    t.condition.getD "" ≠ "" ∧ Condition.evaluateCondition (t.condition.getD "") rt ≠
      Condition.evaluateCondition (t.condition.getD "") rt'

/-- What is left when everything but the condition has been checked. -/
theorem conditionVerdict_eq_iff (t : TransitionDefinition) (a b : String) (rt rt' : RuntimeState) :
    (if t.condition.getD "" ≠ "" ∧
        Condition.evaluateCondition (t.condition.getD "") rt = false then
      Except.error ("Transition condition not met: " ++ t.condition.getD "")
    else if a = b then .ok { rt with reentryCount := rt.reentryCount + 1 }
    else .ok rt).map (fun _ => ()) =
    (if t.condition.getD "" ≠ "" ∧
        Condition.evaluateCondition (t.condition.getD "") rt' = false then
      Except.error ("Transition condition not met: " ++ t.condition.getD "")
    else if a = b then .ok { rt' with reentryCount := rt'.reentryCount + 1 }
    else .ok rt').map (fun _ => ()) ↔
      ¬ (t.condition.getD "" ≠ "" ∧ Condition.evaluateCondition (t.condition.getD "") rt ≠
        Condition.evaluateCondition (t.condition.getD "") rt') := by
  have hverdict : ∀ rt₀ : RuntimeState,
      (if t.condition.getD "" ≠ "" ∧
          Condition.evaluateCondition (t.condition.getD "") rt₀ = false then
        Except.error ("Transition condition not met: " ++ t.condition.getD "")
      else if a = b then .ok { rt₀ with reentryCount := rt₀.reentryCount + 1 }
      else .ok rt₀).map (fun _ => ()) =
      if t.condition.getD "" ≠ "" ∧
          Condition.evaluateCondition (t.condition.getD "") rt₀ = false then
        Except.error ("Transition condition not met: " ++ t.condition.getD "")
      else .ok () := by
    intro rt₀
    split_ifs <;> rfl
  rw [hverdict rt, hverdict rt']
  by_cases hempty : t.condition.getD "" = ""
  · simp [hempty]
  · cases Condition.evaluateCondition (t.condition.getD "") rt <;>
      cases Condition.evaluateCondition (t.condition.getD "") rt' <;> simp [hempty]

theorem canTransition_eq_iff {sm : StateMachine} {a b : String} {rt rt' : RuntimeState}
    (hreentry : rt.reentryCount = rt'.reentryCount) :
    (sm.canTransition a b rt).map (fun _ => ()) = (sm.canTransition a b rt').map (fun _ => ()) ↔
      ¬ Contested sm a b rt rt' := by
  rw [StateMachine.canTransition, StateMachine.canTransition]
  cases hsource : sm.config.state a with
  | none =>
      refine iff_of_true rfl fun h => ?_
      obtain ⟨state, hstate, -⟩ := h.source
      rw [hsource] at hstate
      cases hstate
  | some source =>
      cases htarget : sm.config.state b with
      | none =>
          refine iff_of_true rfl fun h => ?_
          obtain ⟨state, hstate, -⟩ := h.target
          rw [htarget] at hstate
          cases hstate
      | some target =>
          simp only
          by_cases hterminal : source.stateType = .terminal
          · rw [if_pos hterminal, if_pos hterminal]
            refine iff_of_true rfl fun h => ?_
            obtain ⟨state, hstate, hne⟩ := h.source
            rw [hsource] at hstate
            cases hstate
            exact hne hterminal
          rw [if_neg hterminal, if_neg hterminal]
          cases hfind : (sm.config.outgoing a).find? fun t => t.toState = b with
          | none =>
              refine iff_of_true rfl fun h => ?_
              obtain ⟨t, ht, -⟩ := h.declared
              rw [hfind] at ht
              cases ht
          | some t =>
              simp only
              by_cases hhuman : t.requiresHuman = true
              · rw [if_pos hhuman, if_pos hhuman]
                refine iff_of_true rfl fun h => ?_
                obtain ⟨t', ht', hno, -⟩ := h.declared
                rw [hfind] at ht'
                cases ht'
                rw [hno] at hhuman
                cases hhuman
              rw [if_neg hhuman, if_neg hhuman]
              by_cases hlimit : a = b ∧ ∃ k ∈ target.maxReentries, rt.reentryCount ≥ k
              · have hlimit' : a = b ∧ ∃ k ∈ target.maxReentries, rt'.reentryCount ≥ k :=
                  hreentry ▸ hlimit
                rw [if_pos hlimit, if_pos hlimit']
                refine iff_of_true rfl fun h => ?_
                obtain ⟨state, hstate, hfree⟩ := h.target
                rw [htarget] at hstate
                cases hstate
                exact hfree hlimit
              have hlimit' : ¬ (a = b ∧ ∃ k ∈ target.maxReentries, rt'.reentryCount ≥ k) :=
                hreentry ▸ hlimit
              rw [if_neg hlimit, if_neg hlimit']
              have hcontested : Contested sm a b rt rt' ↔ t.condition.getD "" ≠ "" ∧
                  Condition.evaluateCondition (t.condition.getD "") rt ≠
                    Condition.evaluateCondition (t.condition.getD "") rt' := by
                constructor
                · rintro ⟨-, -, t', ht', -, hdiffer⟩
                  rw [hfind] at ht'
                  cases ht'
                  exact hdiffer
                · exact fun h => ⟨⟨source, hsource, hterminal⟩, ⟨target, htarget, hlimit⟩,
                    t, hfind, by simpa using hhuman, h⟩
              rw [hcontested]
              exact conditionVerdict_eq_iff t a b rt rt'

theorem checkTransition_eq_iff {profile : Option ProductProfile} {sm : StateMachine}
    (hsm : profile.bind ProductProfile.stateMachine = some sm) (m : RunMeta) (toState : String)
    (overrides overrides' : List Override)
    (hreentry : (overrides.foldl RuntimeState.override m.runtime).reentryCount =
      (overrides'.foldl RuntimeState.override m.runtime).reentryCount) :
    checkTransition profile m.leaving toState overrides =
        checkTransition profile m.leaving toState overrides' ↔
      ¬ Contested sm m.state toState (overrides.foldl RuntimeState.override m.runtime)
        (overrides'.foldl RuntimeState.override m.runtime) := by
  rw [← canTransition_eq_iff hreentry, checkTransition, checkTransition, hsm]
  simp only [m.leaving_state, RunMeta.runtime]
  cases sm.canTransition m.state toState _ <;> cases sm.canTransition m.state toState _ <;>
    simp [Except.map]

/-- The overrides of the two engines set no reentry count. -/
theorem reentryCount_namedOverrides (sm : StateMachine) (a b : String) (rt : RuntimeState) :
    ((AsyncEngine.namedOverrides sm a b).foldl RuntimeState.override rt).reentryCount =
      rt.reentryCount := by
  rw [AsyncEngine.namedOverrides]
  split
  · rfl
  · simp only
    split_ifs <;> rfl

theorem resumedAt_ne (sm : StateMachine) (a b : String) (m : RunMeta) (message : String) :
    resumedAt sm a b m ≠ .transitionFailed message := by
  simp only [resumedAt]
  split <;> nofun

/-- The call is refused or raises. -/
def Refused : Except String Resumed → Prop
  | .error _ => True
  | .ok (.notPaused _) => True
  | .ok (.transitionFailed _) => True
  | .ok _ => False

theorem not_refused_resumedAt (sm : StateMachine) (a b : String) (m : RunMeta) :
    ¬ Refused (.ok (resumedAt sm a b m)) := by
  simp only [resumedAt]
  split <;> exact id

section

variable (digest : WalEntry → String) (registry : Registry)

/-- A run that is read back in a pause state of its profile's machine. -/
structure Paused (d : Disk) (slug : String) (m : RunMeta) (sm : StateMachine) : Prop where
  run : d.getRun slug = .ok (some m)
  machine : (registry.profile m.profile).bind ProductProfile.stateMachine = some sm
  pause : sm.isPauseState m.state = true

/-- The two engines answer the same and leave the same metadata, and where they
refuse they leave it as it was. -/
structure Agree (s : AsyncEngine) (slug : String) (answers : List String) (t : Moment) : Prop where
  outcome : (ProdinamikEngine.resume digest registry s.disk slug answers t).1 =
    (s.resumeRun digest registry slug answers t).1
  active : (ProdinamikEngine.resume digest registry s.disk slug answers t).2.active =
    (s.resumeRun digest registry slug answers t).2.disk.active
  archive : (ProdinamikEngine.resume digest registry s.disk slug answers t).2.archive =
    (s.resumeRun digest registry slug answers t).2.disk.archive
  unchanged : Refused (s.resumeRun digest registry slug answers t).1 →
    (s.resumeRun digest registry slug answers t).2.disk.active = s.disk.active ∧
      (s.resumeRun digest registry slug answers t).2.disk.archive = s.disk.archive

end

/-- The state that the answers lead to. -/
def nextState (sm : StateMachine) (m : RunMeta) (answers : List String) : String :=
  (sm.evaluateResumeTransition m.state answers).getD ""

variable {registry : Registry}

variable (digest) in
theorem resume_of_paused {d : Disk} {slug : String} {m : RunMeta} {sm : StateMachine}
    (h : Paused registry d slug m sm) (answers : List String) (t : Moment) :
    ProdinamikEngine.resume digest registry d slug answers t =
      if nextState sm m answers = "" then
        (.ok (.answersRecorded answers),
          d.performAll (updateSnapshot d slug { updatedAt := t.now.isoformat }))
      else
        match updateState digest d slug (nextState sm m answers) (registry.profile m.profile)
            [.humanApproved true] t.now t.walTime with
        | .error e => (.ok (.transitionFailed e), d)
        | .ok (writes, m') =>
            (.ok (resumedAt sm m.state (nextState sm m answers) m'), d.performAll writes) := by
  have hprofiles : registry.profiles ≠ [] := by
    intro hnil
    have hmachine := h.machine
    rw [Registry.profile, hnil] at hmachine
    cases hmachine
  rw [ProdinamikEngine.resume, ProdinamikEngine.getRun, if_neg hprofiles, h.run]
  simp only [h.machine, h.pause, if_true]
  rfl

variable (digest) in
theorem resumeRun_of_paused {s : AsyncEngine} {slug : String} {m : RunMeta} {sm : StateMachine}
    (h : Paused registry s.disk slug m sm) (answers : List String) (t : Moment) :
    s.resumeRun digest registry slug answers t =
      if nextState sm m answers = "" then
        (.ok (.answersRecorded answers), (s.touch slug t).touch slug t)
      else
        match updateState digest (s.touch slug t).disk slug (nextState sm m answers)
            (registry.profile m.profile)
            (AsyncEngine.namedOverrides sm m.state (nextState sm m answers)) t.now t.walTime with
        | .error e => (.ok (.transitionFailed e), s.touch slug t)
        | .ok (writes, m') => (.ok (resumedAt sm m.state (nextState sm m answers) m'),
            { s.touch slug t with disk := (s.touch slug t).disk.performAll writes }.record slug
              m.state (nextState sm m answers) t) := by
  obtain ⟨p, hp, hsm⟩ := Option.bind_eq_some_iff.mp h.machine
  have hrun : (s.touch slug t).disk.getRun slug = .ok (some m) := h.run
  rw [AsyncEngine.resumeRun, h.run]
  simp only [h.machine, h.pause, if_true]
  rw [show (sm.evaluateResumeTransition m.state answers).getD "" = nextState sm m answers from rfl]
  split_ifs with hnext
  · rfl
  · rw [AsyncEngine.doTransition, hrun]
    simp only [hp]
    cases updateState digest (s.touch slug t).disk slug (nextState sm m answers) (some p)
      (AsyncEngine.namedOverrides sm m.state (nextState sm m answers)) t.now t.walTime with
    | error e => rfl
    | ok r => rfl

/-- The condition of the first declared transition to the next state is judged
differently with human_approved set and with the flags that it names set, and
nothing else stands in its way. -/
def Disputed (sm : StateMachine) (m : RunMeta) (next : String) : Prop :=
  Contested sm m.state next (m.runtime.override (.humanApproved true))
    ((AsyncEngine.namedOverrides sm m.state next).foldl RuntimeState.override m.runtime)

variable {s : AsyncEngine} {slug : String} {answers : List String} {t : Moment}

/-- The same answer and the same directories. -/
theorem agree_of_eq {answer : Except String Resumed} {d : Disk} {s' : AsyncEngine}
    (hresume : ProdinamikEngine.resume digest registry s.disk slug answers t = (answer, d))
    (hrun : s.resumeRun digest registry slug answers t = (answer, s'))
    (hactive : d.active = s'.disk.active) (harchive : d.archive = s'.disk.archive)
    (hunchanged : Refused answer → s'.disk.active = s.disk.active ∧
      s'.disk.archive = s.disk.archive) : Agree digest registry s slug answers t where
  outcome := by rw [hresume, hrun]
  active := by rw [hresume, hrun, hactive]
  archive := by rw [hresume, hrun, harchive]
  unchanged := by rwa [hrun]

theorem agree_of_no_next {m : RunMeta} {sm : StateMachine} (h : Paused registry s.disk slug m sm)
    (hnext : nextState sm m answers = "") : Agree digest registry s slug answers t := by
  have hresume := resume_of_paused digest h answers t
  have hrun := resumeRun_of_paused digest h answers t
  rw [if_pos hnext] at hresume hrun
  exact agree_of_eq hresume hrun rfl rfl fun _ => ⟨rfl, rfl⟩

/-- Neither engine moves a run that is archived. -/
theorem agree_of_archived {m : RunMeta} {sm : StateMachine}
    (h : Paused registry s.disk slug m sm) (hnext : nextState sm m answers ≠ "")
    (hdir : s.disk.active slug = none) : Agree digest registry s slug answers t := by
  have hmissing : ∀ d : Disk, d.active slug = none → ∀ profile overrides,
      updateState digest d slug (nextState sm m answers) profile overrides t.now t.walTime =
        .error (runNotFound slug) := by
    intro d hd profile overrides
    rw [updateState, hd]
    rfl
  have hresume := resume_of_paused digest h answers t
  have hrun := resumeRun_of_paused digest h answers t
  rw [if_neg hnext, hmissing s.disk hdir] at hresume
  rw [if_neg hnext, hmissing (s.touch slug t).disk hdir] at hrun
  exact agree_of_eq hresume hrun rfl rfl fun _ => ⟨rfl, rfl⟩

/-- On an active run the engines agree if and only if their checks do. -/
theorem agree_iff_of_active {m : RunMeta} {sm : StateMachine} {dir : RunDir}
    (h : Paused registry s.disk slug m sm) (hnext : nextState sm m answers ≠ "")
    (hdir : s.disk.active slug = some dir) :
    Agree digest registry s slug answers t ↔
      checkTransition (registry.profile m.profile) m.leaving (nextState sm m answers)
          [.humanApproved true] =
        checkTransition (registry.profile m.profile) m.leaving (nextState sm m answers)
          (AsyncEngine.namedOverrides sm m.state (nextState sm m answers)) := by
  have hread : Disk.readMeta slug dir = .ok (some m) := by
    have hget := h.run
    rwa [Disk.getRun, hdir] at hget
  have htouched : (s.touch slug t).disk.active slug = some dir := hdir
  have hresume := resume_of_paused digest h answers t
  have hrun := resumeRun_of_paused digest h answers t
  rw [if_neg hnext] at hresume hrun
  obtain ⟨e, hce, hue⟩ | ⟨hce, writes, hue, hactive, harchive⟩ :=
    updateState_read digest hdir hread (registry.profile m.profile)
      (nextState sm m answers) [.humanApproved true] t.now t.walTime <;>
  obtain ⟨e', hcr, hur⟩ | ⟨hcr, writes', hur, hactive', harchive'⟩ :=
    updateState_read digest htouched hread (registry.profile m.profile)
      (nextState sm m answers) (AsyncEngine.namedOverrides sm m.state (nextState sm m answers))
      t.now t.walTime <;>
  rw [hue] at hresume <;> rw [hur] at hrun <;> rw [hce, hcr]
  · constructor
    · intro hagree
      have houtcome := hagree.outcome
      rw [hresume, hrun] at houtcome
      cases houtcome
      rfl
    · intro herror
      cases herror
      exact agree_of_eq hresume hrun rfl rfl fun _ => ⟨rfl, rfl⟩
  · refine iff_of_false (fun hagree => ?_) nofun
    have houtcome := hagree.outcome
    rw [hresume, hrun] at houtcome
    exact resumedAt_ne _ _ _ _ _ (Except.ok.inj houtcome).symm
  · refine iff_of_false (fun hagree => ?_) nofun
    have houtcome := hagree.outcome
    rw [hresume, hrun] at houtcome
    exact resumedAt_ne _ _ _ _ _ (Except.ok.inj houtcome)
  · exact iff_of_true (agree_of_eq hresume hrun (hactive.trans hactive'.symm)
      (harchive.trans harchive'.symm) fun hrefused =>
        absurd hrefused (not_refused_resumedAt _ _ _ _)) rfl

/-- A review is approved or sent back. -/
def reviewing : StateMachine where
  config :=
    { states :=
        [("draft", .once "draft" .initial),
          ("review", { StateDefinition.once "review" .pause with
            hitl := some { resumeTransitions := [("approve", "done"), ("revise", "draft")] } }),
          ("done", .once "done" .terminal)]
      transitions :=
        [{ fromState := "draft", toState := "review" },
          { fromState := "review", toState := "done", condition := some "human_approved" },
          { fromState := "review", toState := "draft", condition := some "changes_requested" }]
      nodup := by decide }
  accepted := by decide

def reviews : Registry where
  profiles := [⟨"reviews", some reviewing⟩]
  nodup := by decide

def underReview : RunMeta where
  slug := "a"
  profile := "reviews"
  title := "A"
  state := "review"
  version := 1

def reviewEngine : AsyncEngine where
  disk := { active := fun slug => if slug = "a" then some ⟨some underReview.write⟩ else none }

def reviewTime : Moment := ⟨default, default, 0⟩

theorem underReview_paused : Paused reviews reviewEngine.disk "a" underReview reviewing where
  run := by decide +kernel
  machine := rfl
  pause := by decide

end Prodinamik.Runs
