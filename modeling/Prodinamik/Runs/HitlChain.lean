import Prodinamik.Lib.Run
import Prodinamik.Runs.Resume

namespace Prodinamik.Runs

open Lib.Run Machine

/-- What a call is to the chain of HITL steps of its run. -/
inductive Passage
  | none
  | left
  | stayed
  | guarded
  | asked
  deriving DecidableEq, Repr

/-- The HITL steps that a run has gone through, and the times it was asked,
since it was last in a state that is no pause state. -/
structure Streak where
  steps : Nat := 0
  asked : Nat := 0
  deriving DecidableEq, Repr

def Streak.after (k : Streak) : Passage → Streak
  | .none => k
  | .left => {}
  | .stayed | .guarded => { k with steps := k.steps + 1 }
  | .asked => ⟨k.steps + 1, k.asked + 1⟩

/-- The engine with the hitl_loop_count that the snapshot has of each run. -/
structure HitlEngine where
  engine : AsyncEngine
  loopCount : String → Nat := fun _ => 0
  streak : String → Streak := fun _ => {}

/-- The two calls; nothing else asks or counts. -/
inductive HitlCall
  | transition (slug toState : String) (t : Moment)
  | resume (slug : String) (answers : List String) (t : Moment)

/-- Whether the counter of the snapshot goes up: it does once the run is known
to be in a pause state. -/
def Resumed.counted : Except String Resumed → Bool
  | .error _ => false
  | .ok (.notPaused _) => false
  | .ok _ => true

def AsyncEngine.HitlAnswer.passage (pause : String → Bool) : AsyncEngine.HitlAnswer → Passage
  | .failed _ => .none
  | .moved state => if pause state then .stayed else .left
  | .guarded _ => .guarded
  | .awaiting .. => .asked

def Resumed.passage (pause : String → Bool) : Except String Resumed → Passage
  | .error _ => .none
  | .ok (.notPaused _) => .left
  | .ok (.answersRecorded _) => .stayed
  | .ok (.transitionFailed _) => .stayed
  | .ok (.awaitingInput ..) => .asked
  | .ok (.transitioned _ toState) => if pause toState then .stayed else .left

section Chain

variable (digest : WalEntry → String) (registry : Registry)

/-- The pause states of the machine that a run is in. -/
def pauseOf (d : Disk) (slug state : String) : Bool :=
  match d.getRun slug with
  | .ok (some m) =>
      ((registry.profile m.profile).bind ProductProfile.stateMachine).any fun sm =>
        sm.isPauseState state
  | _ => false

namespace HitlEngine

def transition (h : HitlEngine) (slug toState : String) (t : Moment) :
    AsyncEngine.HitlAnswer × AsyncEngine :=
  h.engine.transitionWithHitl digest registry slug toState (h.loopCount slug) t

def resume (h : HitlEngine) (slug : String) (answers : List String) (t : Moment) :
    Except String Resumed × AsyncEngine :=
  h.engine.resumeRun digest registry slug answers t

def passage (h : HitlEngine) : HitlCall → Passage
  | .transition slug toState t =>
      (h.transition digest registry slug toState t).1.passage (pauseOf registry h.engine.disk slug)
  | .resume slug answers t =>
      Resumed.passage (pauseOf registry h.engine.disk slug) (h.resume digest registry slug answers t).1

def slugOf : HitlCall → String
  | .transition slug .. => slug
  | .resume slug .. => slug

def call (h : HitlEngine) (c : HitlCall) : HitlEngine where
  engine :=
    match c with
    | .transition slug toState t => (h.transition digest registry slug toState t).2
    | .resume slug answers t => (h.resume digest registry slug answers t).2
  loopCount :=
    match c with
    | .transition .. => h.loopCount
    | .resume slug answers t =>
        if Resumed.counted (h.resume digest registry slug answers t).1 then
          Function.update h.loopCount slug (h.loopCount slug + 1)
        else h.loopCount
  streak := Function.update h.streak (slugOf c)
    ((h.streak (slugOf c)).after (h.passage digest registry c))

/-- No run is asked more than five times in a row. -/
def Bounded (h : HitlEngine) : Prop := ∀ slug, (h.streak slug).asked ≤ 5

/-- Questions are suppressed only after five HITL steps in a row. -/
def Warranted (h : HitlEngine) : HitlCall → Prop
  | .transition slug toState t =>
      ∀ state, (h.transition digest registry slug toState t).1 = .guarded state →
        5 ≤ (h.streak slug).steps
  | .resume .. => True

/-- The questions that a pause state asks of a run that comes to it. -/
def asks (sm : StateMachine) (state : String) (m : RunMeta) : Bool :=
  sm.hitlQuestions state { currentState := state, iterationCount := m.iterationCount } ≠ []

/-- Where a run is taken to a pause state, its resumptions reach five in all only
if its HITL steps in a row do, and one that was asked five times in a row is not
taken to a state that asks, unless by a transition after five resumptions. -/
def Steady (h : HitlEngine) : HitlCall → Prop
  | .transition slug toState t =>
      ∀ m sm, (h.engine.doTransition digest registry slug toState [] t).1 = .ok m →
        (registry.profile m.profile).bind ProductProfile.stateMachine = some sm →
        sm.isPauseState m.state →
          (5 ≤ h.loopCount slug → 5 ≤ (h.streak slug).steps) ∧
          (h.loopCount slug < 5 → asks sm m.state m → (h.streak slug).asked < 5)
  | .resume slug answers t =>
      ∀ m sm m', Paused registry h.engine.disk slug m sm → nextState sm m answers ≠ "" →
        ((h.engine.touch slug t).doTransition digest registry slug (nextState sm m answers)
          (AsyncEngine.namedOverrides sm m.state (nextState sm m answers)) t).1 = .ok m' →
        sm.isPauseState (nextState sm m answers) → asks sm (nextState sm m answers) m' →
          (h.streak slug).asked < 5

end HitlEngine

end Chain

section Proofs

variable {digest : WalEntry → String} {registry : Registry} {h : HitlEngine}

namespace HitlEngine

/-- The runs that a transition takes to a pause state. -/
def Pausing (digest : WalEntry → String) (registry : Registry) (s : AsyncEngine)
    (slug toState : String) (t : Moment) (m : RunMeta) (sm : StateMachine) : Prop :=
  (s.doTransition digest registry slug toState [] t).1 = .ok m ∧
    (registry.profile m.profile).bind ProductProfile.stateMachine = some sm ∧
    sm.isPauseState m.state = true

theorem guarded_iff {slug toState : String} {t : Moment} :
    (∃ state, (h.transition digest registry slug toState t).1 = .guarded state) ↔
      5 ≤ h.loopCount slug ∧ ∃ m sm, Pausing digest registry h.engine slug toState t m sm := by
  rw [transition, AsyncEngine.transitionWithHitl]
  cases hmove : h.engine.doTransition digest registry slug toState [] t with
  | mk result s' =>
      cases result with
      | error e => simp [Pausing, hmove]
      | ok m =>
          cases hmachine : (registry.profile m.profile).bind ProductProfile.stateMachine with
          | none => simp [Pausing, hmove, hmachine]
          | some sm =>
              by_cases hpause : sm.isPauseState m.state = true
              · by_cases hcount : 5 ≤ h.loopCount slug
                · simp [Pausing, hmove, hmachine, hpause, hcount, AsyncEngine.maxHitlLoop]
                · simp only [hmachine, hpause, AsyncEngine.maxHitlLoop, hcount, if_true, if_false]
                  split <;> simp
              · simp [Pausing, hmove, hmachine, hpause]

theorem passage_transition_iff {slug toState : String} {t : Moment} :
    h.passage digest registry (.transition slug toState t) = .asked ↔
      h.loopCount slug < 5 ∧ ∃ m sm, Pausing digest registry h.engine slug toState t m sm ∧
        asks sm m.state m := by
  have hmoved : ∀ (pause : String → Bool) state,
      (AsyncEngine.HitlAnswer.moved state).passage pause ≠ .asked := by
    intro pause state
    rw [AsyncEngine.HitlAnswer.passage]
    split <;> decide
  rw [passage, transition, AsyncEngine.transitionWithHitl]
  cases hmove : h.engine.doTransition digest registry slug toState [] t with
  | mk result s' =>
      cases result with
      | error e => simp [Pausing, hmove, AsyncEngine.HitlAnswer.passage]
      | ok m =>
          cases hmachine : (registry.profile m.profile).bind ProductProfile.stateMachine with
          | none => simp [Pausing, hmove, hmachine, hmoved]
          | some sm =>
              by_cases hpause : sm.isPauseState m.state = true
              · by_cases hcount : 5 ≤ h.loopCount slug
                · simp [hmachine, hpause, hcount, AsyncEngine.maxHitlLoop,
                    AsyncEngine.HitlAnswer.passage]
                · by_cases hasks : asks sm m.state m = true
                  · have hquestions : sm.hitlQuestions m.state
                        { currentState := m.state, iterationCount := m.iterationCount } ≠ [] := by
                      simpa [asks] using hasks
                    simp [Pausing, hmove, hmachine, hpause, hcount, hquestions, hasks,
                      AsyncEngine.maxHitlLoop, AsyncEngine.HitlAnswer.passage]
                    omega
                  · have hquestions : sm.hitlQuestions m.state
                        { currentState := m.state, iterationCount := m.iterationCount } = [] := by
                      simpa [asks] using hasks
                    simp [Pausing, hmove, hmachine, hpause, hcount, hquestions, hasks,
                      AsyncEngine.maxHitlLoop, hmoved]
              · simp [Pausing, hmove, hmachine, hpause, hmoved]

/-- A resumption that is answered with questions. -/
theorem passage_resume_iff {slug : String} {answers : List String} {t : Moment} :
    h.passage digest registry (.resume slug answers t) = .asked ↔
      ∃ m sm m', Paused registry h.engine.disk slug m sm ∧ nextState sm m answers ≠ "" ∧
        ((h.engine.touch slug t).doTransition digest registry slug (nextState sm m answers)
          (AsyncEngine.namedOverrides sm m.state (nextState sm m answers)) t).1 = .ok m' ∧
        sm.isPauseState (nextState sm m answers) ∧ asks sm (nextState sm m answers) m' := by
  have hasked : ∀ pause r, Resumed.passage pause r = .asked ↔
      ∃ state questions, r = .ok (.awaitingInput state questions) := by
    intro pause r
    cases r with
    | error e => simp [Resumed.passage]
    | ok r =>
        cases r with
        | transitioned a b =>
            rw [Resumed.passage]
            split <;> simp
        | notPaused state => simp [Resumed.passage]
        | answersRecorded answers => simp [Resumed.passage]
        | transitionFailed message => simp [Resumed.passage]
        | awaitingInput state questions => simp [Resumed.passage]
  rw [passage, hasked, resume]
  constructor
  · rintro ⟨state, questions, hresult⟩
    rw [AsyncEngine.resumeRun] at hresult
    cases hrun : h.engine.disk.getRun slug with
    | error e => simp [hrun] at hresult
    | ok found =>
      cases found with
      | none => simp [hrun] at hresult
      | some m =>
        cases hmachine : (registry.profile m.profile).bind ProductProfile.stateMachine with
        | none => simp [hrun, hmachine] at hresult
        | some sm =>
          by_cases hpause : sm.isPauseState m.state = true
          · simp only [hrun, hmachine, hpause, if_true] at hresult
            change (if nextState sm m answers = "" then _ else _ :
              Except String Resumed × AsyncEngine).1 = _ at hresult
            by_cases hnext : nextState sm m answers = ""
            · rw [if_pos hnext] at hresult
              cases hresult
            · rw [if_neg hnext] at hresult
              split at hresult
              case h_1 => cases hresult
              case h_2 m' s' hmove =>
                refine ⟨m, sm, m', ⟨hrun, hmachine, hpause⟩, hnext, congrArg Prod.fst hmove, ?_⟩
                have hat := Except.ok.inj hresult
                rw [resumedAt] at hat
                split at hat
                case isTrue hboth => exact ⟨hboth.1, decide_eq_true hboth.2⟩
                case isFalse => cases hat
          · simp [hrun, hmachine, hpause] at hresult
  · rintro ⟨m, sm, m', hpaused, hnext, hmove, hpause, hasks⟩
    have hquestions : sm.hitlQuestions (nextState sm m answers)
        { currentState := nextState sm m answers, iterationCount := m'.iterationCount } ≠ [] := by
      simpa [asks] using hasks
    refine ⟨nextState sm m answers, sm.hitlQuestions (nextState sm m answers)
      { currentState := nextState sm m answers, iterationCount := m'.iterationCount }, ?_⟩
    rw [AsyncEngine.resumeRun, hpaused.run]
    simp only [hpaused.machine, hpaused.pause, if_true]
    change (if nextState sm m answers = "" then _ else _ :
      Except String Resumed × AsyncEngine).1 = _
    rw [if_neg hnext]
    split
    case h_1 e s' hfail =>
      rw [show (h.engine.touch slug t).doTransition digest registry slug (nextState sm m answers)
        (AsyncEngine.namedOverrides sm m.state (nextState sm m answers)) t = _ from hfail] at hmove
      cases hmove
    case h_2 m₁ s' hdone =>
      rw [show (h.engine.touch slug t).doTransition digest registry slug (nextState sm m answers)
        (AsyncEngine.namedOverrides sm m.state (nextState sm m answers)) t = _ from hdone] at hmove
      cases hmove
      have hat : resumedAt sm m.state (nextState sm m answers) m' =
          .awaitingInput (nextState sm m answers) (sm.hitlQuestions (nextState sm m answers)
            { currentState := nextState sm m answers, iterationCount := m'.iterationCount }) :=
        if_pos ⟨hpause, hquestions⟩
      exact congrArg Except.ok hat

theorem streak_call (c : HitlCall) (slug : String) :
    (h.call digest registry c).streak slug =
      if slug = slugOf c then (h.streak slug).after (h.passage digest registry c)
      else h.streak slug := by
  by_cases hslug : slug = slugOf c
  · subst hslug
    rw [if_pos rfl]
    exact Function.update_self ..
  · rw [if_neg hslug]
    exact Function.update_of_ne hslug ..

theorem bounded_call_iff (hb : h.Bounded) (c : HitlCall) :
    (h.call digest registry c).Bounded ↔
      (h.passage digest registry c = .asked → (h.streak (slugOf c)).asked < 5) := by
  have hthis := hb (slugOf c)
  have hafter : ∀ p : Passage, ((h.streak (slugOf c)).after p).asked ≤ 5 ↔
      (p = .asked → (h.streak (slugOf c)).asked < 5) := by
    intro p
    cases p with
    | none => simpa [Streak.after] using hthis
    | left => simp [Streak.after]
    | stayed => simpa [Streak.after] using hthis
    | guarded => simpa [Streak.after] using hthis
    | asked => simp [Streak.after, Nat.succ_le_iff]
  rw [← hafter]
  constructor
  · intro hcall
    have hslug := hcall (slugOf c)
    rwa [streak_call, if_pos rfl] at hslug
  · intro hle slug
    rw [streak_call]
    split
    case isTrue hslug => exact hslug ▸ hle
    case isFalse => exact hb slug

theorem steady_iff (hb : h.Bounded) (c : HitlCall) :
    (h.call digest registry c).Bounded ∧ h.Warranted digest registry c ↔
      h.Steady digest registry c := by
  rw [bounded_call_iff hb]
  cases c with
  | transition slug toState t =>
      rw [passage_transition_iff, Warranted, Steady]
      constructor
      · rintro ⟨hasked, hwarranted⟩ m sm hmove hmachine hpause
        refine ⟨fun hcount => ?_, fun hcount hasks => ?_⟩
        · obtain ⟨state, hguarded⟩ := guarded_iff.mpr ⟨hcount, m, sm, hmove, hmachine, hpause⟩
          exact hwarranted state hguarded
        · exact hasked ⟨hcount, m, sm, ⟨hmove, hmachine, hpause⟩, hasks⟩
      · intro hsteady
        refine ⟨?_, fun state hguarded => ?_⟩
        · rintro ⟨hcount, m, sm, ⟨hmove, hmachine, hpause⟩, hasks⟩
          exact (hsteady m sm hmove hmachine hpause).2 hcount hasks
        · obtain ⟨hcount, m, sm, hmove, hmachine, hpause⟩ := guarded_iff.mp ⟨state, hguarded⟩
          exact (hsteady m sm hmove hmachine hpause).1 hcount
  | resume slug answers t =>
      rw [passage_resume_iff, Warranted, and_true, Steady]
      constructor
      · intro hasked m sm m' hpaused hnext hmove hpause hasks
        exact hasked ⟨m, sm, m', hpaused, hnext, hmove, hpause, hasks⟩
      · rintro hsteady ⟨m, sm, m', hpaused, hnext, hmove, hpause, hasks⟩
        exact hsteady m sm m' hpaused hnext hmove hpause hasks

end HitlEngine

end Proofs

namespace HitlEngine

/-- Over any calls the guard holds questions back only when it should, and no
run is asked too often, exactly where every call is steady. -/
theorem chain_guarded (digest : WalEntry → String) (registry : Registry) (s : AsyncEngine)
    (count : String → Nat) (calls : List HitlCall) :
    Along (call digest registry) Bounded (Warranted digest registry) ⟨s, count, fun _ => {}⟩ calls ↔
      Steps (call digest registry) (Steady digest registry) ⟨s, count, fun _ => {}⟩ calls :=
  along_iff_steps (fun _ => True) (fun _ _ _ => trivial) (fun _ c _ hb => steady_iff hb c) trivial
    (fun _ => Nat.zero_le 5) calls

/-- A state with the questions and the answers of its config. -/
def asking (state : StateDefinition) (hitl : HITLConfig) : StateDefinition :=
  { state with hitl := some hitl }

/-- A survey that asks and may go back. -/
def surveying : StateMachine where
  config :=
    { states :=
        [("draft", .once "draft" .initial),
          ("review", asking (.once "review" .pause)
            { askUser := [{ question := "Is it done?" }] }),
          ("done", .once "done" .terminal)]
      transitions :=
        [{ fromState := "draft", toState := "review" },
          { fromState := "review", toState := "draft" },
          { fromState := "review", toState := "done" }]
      nodup := by decide }
  accepted := by decide

def surveys : Registry where
  profiles := [⟨"surveys", some surveying⟩]
  nodup := by decide

def surveyEngine : AsyncEngine where
  disk :=
    { active := fun slug =>
        if slug = "a" then some ⟨some { underReview with profile := "surveys" }.write⟩ else none }

/-- Five resumptions in a row and a step back. -/
def longReview : List HitlCall :=
  List.replicate 5 (.resume "a" ["later"] reviewTime) ++ [.transition "a" "draft" reviewTime]

/-- The next review is held back though the run comes from a draft. -/
theorem not_chain_guarded :
    ¬ Along (call (fun _ => "") surveys) Bounded (Warranted (fun _ => "") surveys)
      ⟨surveyEngine, fun _ => 0, fun _ => {}⟩
      (longReview ++ [.transition "a" "review" reviewTime]) := by
  intro h
  have hsteps := h.last_action "review" (by decide +kernel)
  revert hsteps
  decide +kernel

end HitlEngine

end Prodinamik.Runs
