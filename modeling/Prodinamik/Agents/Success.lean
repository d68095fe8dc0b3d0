import Mathlib.Order.Nat
import Mathlib.Data.Nat.Find
import Prodinamik.Agents.AgentWorker

namespace Prodinamik.Agents

open Lib Lib.Json

variable {fl : Floats} (host : Host fl)

namespace Reply

/-- The action of a response; none where the provider has failed. -/
def action (reply : Reply fl.Num) : Option (Value fl.Num) :=
  (AgentWorker.thoughtOf host reply).map Thought.action

def typeOf (action : List (String × Value fl.Num)) : Value fl.Num := field action "type" (.str "none")

/-- The response asks for a tool, or only thinks. -/
def GoesOn (reply : Reply fl.Num) : Prop :=
  ∃ action, reply.action host = some (.obj action) ∧
    isText (typeOf action) "complete" = false ∧ isText (typeOf action) "error" = false

def Completes (reply : Reply fl.Num) (action : List (String × Value fl.Num)) : Prop :=
  reply.action host = some (.obj action) ∧ isText (typeOf action) "complete" = true

variable {host} {reply : Reply fl.Num} {action action' : List (String × Value fl.Num)}

theorem GoesOn.action_ne_none (h : reply.GoesOn host) : reply.action host ≠ none := by
  obtain ⟨action, haction, -⟩ := h
  rw [haction]
  exact Option.some_ne_none _

theorem Completes.action_ne_none (h : reply.Completes host action) : reply.action host ≠ none := by
  rw [h.1]
  exact Option.some_ne_none _

theorem Completes.unique (h : reply.Completes host action) (h' : reply.Completes host action') :
    action = action' :=
  Value.obj.inj (Option.some.inj (h.1.symm.trans h'.1))

theorem GoesOn.not_completes (h : reply.GoesOn host) (action : List (String × Value fl.Num)) :
    ¬ reply.Completes host action := by
  intro hcompletes
  obtain ⟨action', haction', hnot, -⟩ := h
  obtain rfl := Value.obj.inj (Option.some.inj (haction'.symm.trans hcompletes.1))
  rw [hcompletes.2] at hnot
  cases hnot

end Reply

/-- The summary can be cut like a text, and the output is a dict. -/
def Presentable (action : List (String × Value fl.Num)) : Prop :=
  (Content.ofValue (field action "summary" (.str "Goal achieved"))).isSome ∧
    ∃ output, field action "output" (.obj []) = .obj output

theorem not_isText {v : Value fl.Num} {s t : String} (h : isText v s = true) (hne : s ≠ t) :
    isText v t = false := by
  cases v with
  | str u =>
      simp only [isText, decide_eq_true_eq, decide_eq_false_iff_not] at h ⊢
      exact h ▸ hne
  | _ => cases h

/-- The steps that are recorded while a run goes on. -/
def StepType.Ongoing (stepType : StepType) : Prop := stepType ≠ .report ∧ stepType ≠ .toolResult

instance (stepType : StepType) : Decidable stepType.Ongoing :=
  inferInstanceAs (Decidable (stepType ≠ .report ∧ stepType ≠ .toolResult))

def Trace.Ongoing (trace : Trace fl.Num) : Prop := ∀ s ∈ trace.steps, s.stepType.Ongoing

namespace AgentWorker

variable (w : AgentWorker) (env : Surroundings fl.Num)

theorem ongoing_recordStep {trace : Trace fl.Num} (h : trace.Ongoing) {stepType : StepType}
    (htype : stepType.Ongoing) (content : Content fl.Num)
    (toolName toolInput toolOutput tokenCount : Value fl.Num) :
    (recordStep host trace stepType content toolName toolInput toolOutput tokenCount).Ongoing := by
  intro s hs
  rcases List.mem_append.mp hs with hs | hs
  · exact h s hs
  · rw [List.mem_singleton.mp hs]
    exact htype

theorem compileStepSummary_isSome {steps : List (StepRecord fl.Num)}
    (h : ∀ s ∈ steps, s.stepType.Ongoing) : (ContextConfig.compileStepSummary steps).isSome := by
  have hnone : (steps.filter fun s => s.stepType = .report) = [] :=
    List.filter_eq_nil_iff.mpr fun s hs => by rw [decide_eq_true_eq]; exact (h s hs).1
  rw [ContextConfig.compileStepSummary, hnone]
  rfl

theorem messages_isSome {steps : List (StepRecord fl.Num)} (h : ∀ s ∈ steps, s.stepType.Ongoing)
    (k : Nat) : (w.messages host steps k).isSome := by
  rw [messages, Option.isSome_map, history]
  cases w.contextMgr with
  | none => rfl
  | some config =>
      simp only [ContextConfig.summarize, ContextConfig.untrimmed, Option.isSome_map]
      split
      · rfl
      · rw [Option.isSome_map]
        exact compileStepSummary_isSome fun s hs => h s (List.mem_of_mem_take hs)

/-- How the loop is left by a step that does not go on. -/
inductive Leaves (k : Nat) : Reply fl.Num → Progress fl.Num → Prop
  | fallback {reply : Reply fl.Num} {trace : Trace fl.Num} {output : List (String × Value fl.Num)}
      (hfailed : reply.action host = none) (houtput : trace.finalOutput = .obj output) :
      Leaves k reply (.completed k trace)
  | complete {reply : Reply fl.Num} {trace : Trace fl.Num} {action : List (String × Value fl.Num)}
      (haction : reply.Completes host action)
      (hsummary : (Content.ofValue (field action "summary" (.str "Goal achieved"))).isSome)
      (houtput : trace.finalOutput = field action "output" (.obj [])) :
      Leaves k reply (.completed k trace)
  | unpresentable {reply : Reply fl.Num} {trace : Trace fl.Num} {e : Raised fl.Num}
      {action : List (String × Value fl.Num)} (haction : reply.Completes host action)
      (hsummary : ¬ Presentable action) : Leaves k reply (.raised trace e)
  | error {reply : Reply fl.Num} {result : AgentResult fl.Num} {action : Value fl.Num}
      (haction : reply.action host = some action) (hnot : ∀ action, ¬ reply.Completes host action)
      (hresult : result.success = false) : Leaves k reply (.returned result)
  | raised {reply : Reply fl.Num} {trace : Trace fl.Num} {e : Raised fl.Num} {action : Value fl.Num}
      (haction : reply.action host = some action) (hnot : ∀ action, ¬ reply.Completes host action) :
      Leaves k reply (.raised trace e)

/-- An action that is an object goes on just where the response does. -/
theorem perform_cases {before : Trace fl.Num} (hbefore : before.Ongoing) {reply : Reply fl.Num}
    {action : List (String × Value fl.Num)} (haction : reply.action host = some (.obj action))
    (executed : Executed fl.Num) (k : Nat) :
    (reply.GoesOn host ∧
      ∃ trace, perform host before executed k (.obj action) = .running trace ∧ trace.Ongoing) ∨
    (¬ reply.GoesOn host ∧
      Leaves host k reply (perform host before executed k (.obj action))) := by
  have hsame : ∀ {action'}, reply.action host = some (.obj action') → action' = action := fun h =>
    Value.obj.inj (Option.some.inj (h.symm.trans haction))
  simp only [perform]
  split
  · rename_i hcall
    refine .inl ⟨⟨action, haction, not_isText hcall (by decide), not_isText hcall (by decide)⟩,
      _, rfl, ?_⟩
    exact ongoing_recordStep host hbefore (by decide : StepType.toolCall.Ongoing) _ _ _ _ _
  split
  · rename_i hcomplete
    refine .inr ⟨fun hgoes => hgoes.not_completes action ⟨haction, hcomplete⟩, ?_⟩
    split
    · rename_i content hsummary
      exact .complete ⟨haction, hcomplete⟩ (by rw [hsummary]; rfl) rfl
    · rename_i hsummary
      refine .unpresentable ⟨haction, hcomplete⟩ fun hpresentable => ?_
      rw [Presentable, hsummary] at hpresentable
      cases hpresentable.1
  rename_i hcomplete
  split
  · rename_i herror
    have hnot : ∀ action', ¬ reply.Completes host action' := by
      rintro action' ⟨haction', hcomplete'⟩
      rw [hsame haction'] at hcomplete'
      exact hcomplete hcomplete'
    refine .inr ⟨?_, ?_⟩
    · rintro ⟨action', haction', -, hno⟩
      rw [hsame haction', Reply.typeOf, herror] at hno
      cases hno
    · split
      · exact .error haction hnot rfl
      · exact .raised haction hnot
  · rename_i herror
    exact .inl ⟨⟨action, haction, Bool.eq_false_iff.mpr hcomplete, Bool.eq_false_iff.mpr herror⟩,
      _, rfl, hbefore⟩

/-- A step goes on just where the response does, and leaves the loop in one of
these ways else. -/
theorem step_cases {trace : Trace fl.Num} (h : trace.Ongoing) (k : Nat) :
    ((env.replies k).GoesOn host ∧
      ∃ trace', w.step host env trace k = .running trace' ∧ trace'.Ongoing) ∨
    (¬ (env.replies k).GoesOn host ∧ Leaves host k (env.replies k) (w.step host env trace k)) := by
  have hobserved : (w.observed host env trace k).Ongoing :=
    ongoing_recordStep host h (by decide : StepType.observation.Ongoing) _ _ _ _ _
  have hthought : (thought host env (w.observed host env trace k) k).Ongoing :=
    ongoing_recordStep host hobserved (by decide : StepType.thought.Ongoing) _ _ _ _ _
  obtain ⟨ms, hms⟩ := Option.isSome_iff_exists.mp (w.messages_isSome host hobserved k)
  rw [step]
  simp only [hms]
  generalize thought host env (w.observed host env trace k) k = before at hthought ⊢
  generalize env.replies k = reply
  cases hreply : thoughtOf host reply with
  | none =>
      have hnone : reply.action host = none := by rw [Reply.action, hreply]; rfl
      refine .inr ⟨fun hgoes => hgoes.action_ne_none hnone, ?_⟩
      rw [think, hreply]
      exact .fallback hnone rfl
  | some t =>
      have haction : reply.action host = some t.action := by rw [Reply.action, hreply]; rfl
      rw [think, hreply, Option.getD_some]
      cases hobj : t.action with
      | obj action =>
          rw [hobj] at haction
          exact perform_cases host hthought haction _ k
      | _ =>
          have hno : ∀ {action'}, reply.action host ≠ some (.obj action') := by
            intro action' h
            rw [Option.some.inj (haction.symm.trans h)] at hobj
            cases hobj
          refine .inr ⟨?_, .raised haction fun action' h => hno h.1⟩
          rintro ⟨action', h, -⟩
          exact hno h

/-- Step k + 1 of the loop begins, so that the provider is asked. -/
def Asked (k : Nat) : Prop := ∃ trace, w.after host env k = .running trace

/-- At some step the provider has returned a complete action; all steps before
it went on, so that none has ended with an error action. -/
def Achieved : Prop :=
  ∃ k < w.maxSteps, w.Asked host env k ∧ ∃ action, (env.replies (k + 1)).Completes host action

theorem ongoing_after {k : Nat} {trace : Trace fl.Num} (h : w.after host env k = .running trace) :
    trace.Ongoing := by
  induction k generalizing trace with
  | zero =>
      obtain rfl := Progress.running.inj h
      exact fun s hs => (List.not_mem_nil hs).elim
  | succ k ih =>
      rw [after] at h
      split at h
      · rename_i before hbefore
        rcases w.step_cases host env (ih hbefore) (k + 1) with ⟨-, trace', hstep, hongoing⟩ | ⟨-, hleaves⟩
        · rw [hstep] at h
          exact Progress.running.inj h ▸ hongoing
        · rw [h] at hleaves
          cases hleaves
      · rename_i hnot
        exact (hnot _ h).elim

/-- The provider is asked just as long as all its responses go on. -/
theorem asked_iff {k : Nat} :
    w.Asked host env k ↔ ∀ j < k, (env.replies (j + 1)).GoesOn host := by
  induction k with
  | zero => exact iff_of_true ⟨_, rfl⟩ fun j hj => (Nat.not_lt_zero j hj).elim
  | succ k ih =>
      rw [Nat.forall_lt_succ_right, ← ih]
      constructor
      · rintro ⟨trace, h⟩
        rw [after] at h
        split at h
        · rename_i before hbefore
          rcases w.step_cases host env (w.ongoing_after host env hbefore) (k + 1) with
            ⟨hgoes, -⟩ | ⟨-, hleaves⟩
          · exact ⟨⟨before, hbefore⟩, hgoes⟩
          · rw [h] at hleaves
            cases hleaves
        · rename_i hnot
          exact (hnot _ h).elim
      · rintro ⟨⟨before, hbefore⟩, hgoes⟩
        rcases w.step_cases host env (w.ongoing_after host env hbefore) (k + 1) with
          ⟨-, trace, hstep, -⟩ | ⟨hnot, -⟩
        · exact ⟨trace, by rw [after, hbefore]; exact hstep⟩
        · exact absurd hgoes hnot

/-- Once the loop is left, nothing happens. -/
theorem after_of_left {k n : Nat} (hle : k ≤ n) (h : ¬ w.Asked host env k) :
    w.after host env n = w.after host env k := by
  induction n, hle using Nat.le_induction with
  | base => rfl
  | succ n _ ih =>
      rw [after, ih]
      split
      · rename_i trace htrace
        exact absurd ⟨trace, htrace⟩ h
      · rfl

/-- The run ends well where it is left before the last step by a fallback or a
presentable action. -/
theorem success_of_leaves {k n : Nat} {reply : Reply fl.Num} {progress : Progress fl.Num}
    (h : Leaves host k reply progress) (hprogress : w.after host env w.maxSteps = progress)
    (hn : w.maxSteps = n) :
    (w.execute host env).success = true ↔
      k < n ∧ (reply.action host = none ∨ ∃ action, reply.Completes host action ∧ Presentable action) := by
  subst hn
  rw [execute, hprogress]
  cases h with
  | fallback hfailed houtput =>
      simp only
      split
      · rename_i hlast
        exact iff_of_false Bool.false_ne_true fun h => absurd h.1 (Nat.not_lt.mpr hlast)
      · rename_i hearly
        rw [succeeded, houtput]
        exact iff_of_true rfl ⟨Nat.not_le.mp hearly, .inl hfailed⟩
  | @complete trace action haction hsummary houtput =>
      have hpresentable : Presentable action ↔ ∃ output, trace.finalOutput = .obj output := by
        rw [houtput]
        exact and_iff_right hsummary
      have hwell : (reply.action host = none ∨ ∃ action, reply.Completes host action ∧
          Presentable action) ↔ ∃ output, trace.finalOutput = .obj output := by
        rw [← hpresentable]
        constructor
        · rintro (hnone | ⟨action', haction', hpresentable'⟩)
          · exact absurd hnone haction.action_ne_none
          · rwa [haction.unique haction']
        · exact fun hpresentable => .inr ⟨action, haction, hpresentable⟩
      rw [hwell]
      simp only
      split
      · rename_i hlast
        exact iff_of_false Bool.false_ne_true fun h => absurd h.1 (Nat.not_lt.mpr hlast)
      · rename_i hearly
        rw [and_iff_right (Nat.not_le.mp hearly), succeeded]
        split
        · rename_i output hobj
          exact iff_of_true rfl ⟨output, hobj⟩
        · rename_i hnot
          exact iff_of_false Bool.false_ne_true fun ⟨output, hobj⟩ => hnot output hobj
  | @unpresentable _ _ action haction hsummary =>
      refine iff_of_false Bool.false_ne_true ?_
      rintro ⟨-, hnone | ⟨action', haction', hpresentable⟩⟩
      · exact absurd hnone haction.action_ne_none
      · rw [haction.unique haction'] at hsummary
        exact hsummary hpresentable
  | error haction hnot hresult =>
      refine iff_of_false (by simp [hresult]) ?_
      rintro ⟨-, hnone | ⟨action', haction', -⟩⟩
      · rw [haction] at hnone
        cases hnone
      · exact hnot action' haction'
  | raised haction hnot =>
      refine iff_of_false Bool.false_ne_true ?_
      rintro ⟨-, hnone | ⟨action', haction', -⟩⟩
      · rw [haction] at hnone
        cases hnone
      · exact hnot action' haction'

/-- At the first step that does not go on, the provider fails only where it is
the last one, and a complete action comes before that and is presentable. -/
def Sound : Prop :=
  ∀ k < w.maxSteps, (∀ j < k, (env.replies (j + 1)).GoesOn host) →
    ((env.replies (k + 1)).action host = none → k + 1 = w.maxSteps) ∧
    ∀ action, (env.replies (k + 1)).Completes host action → k + 1 < w.maxSteps ∧ Presentable action

/-- The first step that does not go on. -/
structure FirstStop (k : Nat) : Prop where
  within : k < w.maxSteps
  before : ∀ j < k, (env.replies (j + 1)).GoesOn host
  stops : ¬ (env.replies (k + 1)).GoesOn host

section FirstStop

variable {w host env} {k : Nat}

variable (w host env) in
theorem goesOn_or_firstStop :
    (∀ k < w.maxSteps, (env.replies (k + 1)).GoesOn host) ∨ ∃ k, w.FirstStop host env k := by
  by_cases hall : ∀ k < w.maxSteps, (env.replies (k + 1)).GoesOn host
  · exact .inl hall
  · classical
    push Not at hall
    obtain ⟨hk, hstop⟩ := Nat.find_spec hall
    refine .inr ⟨Nat.find hall, hk, fun j hj => ?_, hstop⟩
    by_contra hnot
    exact Nat.find_min hall hj ⟨hj.trans hk, hnot⟩

theorem FirstStop.eq_or_goesOn (h : w.FirstStop host env k) {j : Nat}
    (hj : ∀ i < j, (env.replies (i + 1)).GoesOn host) :
    j = k ∨ (env.replies (j + 1)).GoesOn host := by
  rcases Nat.lt_trichotomy j k with hlt | heq | hgt
  · exact .inr (h.before j hlt)
  · exact .inl heq
  · exact absurd (hj k hgt) h.stops

theorem FirstStop.success_iff_reply (h : w.FirstStop host env k) :
    (w.execute host env).success = true ↔
      k + 1 < w.maxSteps ∧ ((env.replies (k + 1)).action host = none ∨
        ∃ action, (env.replies (k + 1)).Completes host action ∧ Presentable action) := by
  obtain ⟨trace, htrace⟩ := (w.asked_iff host env).mpr h.before
  have hleaves : Leaves host (k + 1) (env.replies (k + 1)) (w.after host env (k + 1)) := by
    rw [after, htrace]
    rcases w.step_cases host env (w.ongoing_after host env htrace) (k + 1) with ⟨hgoes, -⟩ | ⟨-, hleaves⟩
    · exact absurd hgoes h.stops
    · exact hleaves
  have hleft : ¬ w.Asked host env (k + 1) := by
    rw [asked_iff]
    exact fun hgoes => h.stops (hgoes k (Nat.lt_succ_self k))
  exact w.success_of_leaves host env hleaves (w.after_of_left host env h.within hleft) rfl

theorem FirstStop.achieved_iff (h : w.FirstStop host env k) :
    w.Achieved host env ↔ ∃ action, (env.replies (k + 1)).Completes host action := by
  rw [Achieved]
  simp only [asked_iff]
  constructor
  · rintro ⟨j, -, hj, action, haction⟩
    rcases h.eq_or_goesOn hj with rfl | hgoes
    · exact ⟨action, haction⟩
    · exact absurd haction (hgoes.not_completes action)
  · rintro ⟨action, haction⟩
    exact ⟨k, h.within, h.before, action, haction⟩

theorem FirstStop.sound_iff (h : w.FirstStop host env k) :
    w.Sound host env ↔ ((env.replies (k + 1)).action host = none → k + 1 = w.maxSteps) ∧
      ∀ action, (env.replies (k + 1)).Completes host action →
        k + 1 < w.maxSteps ∧ Presentable action := by
  constructor
  · exact fun hsound => hsound k h.within h.before
  · intro hreply j _ hbefore
    rcases h.eq_or_goesOn hbefore with rfl | hgoes
    · exact hreply
    · exact ⟨fun hnone => absurd hnone hgoes.action_ne_none,
        fun action haction => absurd haction (hgoes.not_completes action)⟩

end FirstStop

/-- Success is real just where these two slips are not met. -/
theorem success_iff :
    ((w.execute host env).success = true ↔ w.Achieved host env) ↔ w.Sound host env := by
  rcases w.goesOn_or_firstStop host env with hall | ⟨k, hstop⟩
  · obtain ⟨trace, htrace⟩ := (w.asked_iff host env).mpr hall
    refine iff_of_true (iff_of_false ?_ ?_) fun k hk _ => ?_
    · rw [execute, htrace]
      exact Bool.false_ne_true
    · rintro ⟨k, hk, -, action, haction⟩
      exact (hall k hk).not_completes action haction
    · exact ⟨fun hnone => absurd hnone (hall k hk).action_ne_none,
        fun action haction => absurd haction ((hall k hk).not_completes action)⟩
  · rw [hstop.success_iff_reply, hstop.achieved_iff, hstop.sound_iff]
    constructor
    · intro hsuccess
      refine ⟨fun hnone => ?_, fun action haction => ?_⟩
      · by_contra hlast
        have hwithin := hstop.within
        obtain ⟨action, haction⟩ := hsuccess.mp ⟨by omega, .inl hnone⟩
        exact haction.action_ne_none hnone
      · obtain ⟨hearly, hnone | ⟨action', haction', hpresentable⟩⟩ := hsuccess.mpr ⟨action, haction⟩
        · exact absurd hnone haction.action_ne_none
        · rw [haction.unique haction']
          exact ⟨hearly, hpresentable⟩
    · rintro ⟨hfails, hcompletes⟩
      constructor
      · rintro ⟨hearly, hnone | ⟨action, haction, -⟩⟩
        · exact absurd (hfails hnone) (Nat.ne_of_lt hearly)
        · exact ⟨action, haction⟩
      · rintro ⟨action, haction⟩
        obtain ⟨hearly, hpresentable⟩ := hcompletes action haction
        exact ⟨hearly, .inr ⟨action, haction, hpresentable⟩⟩

/-- A provider that always fails. -/
def unavailable : Surroundings Floats.single.Num where
  recalled _ := []
  toolStatus _ := none
  replies _ := .raises []
  tools _ := .raises "" ()

def twoSteps : AgentWorker where
  goal := []
  systemPrompt := []
  maxSteps := 2

/-- The failure of the provider at the first of two steps is a success. -/
theorem not_success :
    ¬ ∀ (fl : Floats) (host : Host fl) (w : AgentWorker) (env : Surroundings fl.Num), 1 ≤ w.maxSteps →
      ((w.execute host env).success = true ↔ w.Achieved host env) := by
  intro h
  have hsound := (twoSteps.success_iff plainHost unavailable).mp
    (h .single plainHost twoSteps unavailable (by decide))
  exact absurd ((hsound 0 (by decide) fun j hj => (Nat.not_lt_zero j hj).elim).1 rfl)
    (by decide : ¬ 1 = 2)

end AgentWorker

end Prodinamik.Agents
