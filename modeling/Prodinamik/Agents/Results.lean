import Mathlib.Logic.Function.Basic
import Prodinamik.Agents.Extraction
import Prodinamik.Agents.Success

namespace Prodinamik.Agents

open Lib Lib.Json

variable {fl : Floats} (host : Host fl)

/-- A step without what the tool has returned. -/
def StepRecord.veil (s : StepRecord fl.Num) : StepRecord fl.Num := { s with toolOutput := .null }

namespace ContextConfig

variable {host}

theorem stepToMessage_veil {s : StepRecord fl.Num} (h : s.stepType.Ongoing) :
    stepToMessage host s.veil = stepToMessage host s := by
  obtain ⟨number, stepType, content, toolName, toolInput, toolOutput, tokenCount, error⟩ := s
  cases stepType with
  | toolResult => exact absurd rfl h.2
  | _ => rfl

theorem compileStepSummary_veil (steps : List (StepRecord fl.Num)) :
    compileStepSummary (steps.map StepRecord.veil) = compileStepSummary steps := by
  have hcount : ∀ t : StepType, ((steps.map StepRecord.veil).countP fun s => s.stepType = t) =
      steps.countP fun s => s.stepType = t := by
    intro t
    rw [List.countP_map]
    rfl
  have hreports : (((steps.map StepRecord.veil).filter fun s => s.stepType = .report).map
      fun s => s.content.take 200) =
      (steps.filter fun s => s.stepType = .report).map fun s => s.content.take 200 := by
    rw [List.filter_map, List.map_map]
    rfl
  simp only [compileStepSummary, hcount, hreports, List.length_map]

theorem untrimmed_veil (config : ContextConfig) {steps : List (StepRecord fl.Num)}
    (h : ∀ s ∈ steps, s.stepType.Ongoing) :
    config.untrimmed host (steps.map StepRecord.veil) = config.untrimmed host steps := by
  have hrecent : ∀ n, ((steps.map StepRecord.veil).drop n).map (stepToMessage host) =
      (steps.drop n).map (stepToMessage host) := by
    intro n
    rw [← List.map_drop, List.map_map]
    exact List.map_congr_left fun s hs => stepToMessage_veil (h s (List.mem_of_mem_drop hs))
  simp only [untrimmed, hrecent, List.length_map, ← List.map_take, compileStepSummary_veil]

end ContextConfig

namespace AgentWorker

variable (w : AgentWorker) (env : Surroundings fl.Num)

/-- The history before any message is trimmed. -/
def untrimmedHistory (steps : List (StepRecord fl.Num)) : Option (List (Message fl.Num)) :=
  match w.contextMgr with
  | some config => config.untrimmed host steps
  | none => w.history host steps

theorem history_veil {steps : List (StepRecord fl.Num)} (h : ∀ s ∈ steps, s.stepType.Ongoing) :
    w.history host (steps.map StepRecord.veil) = w.history host steps := by
  rw [history, history]
  cases w.contextMgr with
  | none =>
      simp only [List.length_map, ← List.map_drop, List.map_map]
      rfl
  | some config => simp only [ContextConfig.summarize, config.untrimmed_veil h]

theorem untrimmedHistory_veil {steps : List (StepRecord fl.Num)}
    (h : ∀ s ∈ steps, s.stepType.Ongoing) :
    w.untrimmedHistory host (steps.map StepRecord.veil) = w.untrimmedHistory host steps := by
  rw [untrimmedHistory, untrimmedHistory, w.history_veil host h]
  cases w.contextMgr with
  | none => rfl
  | some config => exact config.untrimmed_veil h

/-- The trace with which the provider is asked at step k + 1. -/
def askedWith (k : Nat) : Option (Trace fl.Num) :=
  match w.after host env k with
  | .running trace => some (w.observed host env trace (k + 1))
  | _ => none

theorem askedWith_none {k : Nat} (h : ∀ trace, w.after host env k ≠ .running trace) :
    w.askedWith host env k = none := by
  rw [askedWith]
  split
  · rename_i trace htrace
    exact absurd htrace (h trace)
  · rfl

/-- The messages that the provider gets at step k + 1. -/
def conversation (k : Nat) : Option (List (Message fl.Num)) :=
  (w.askedWith host env k).bind fun trace => w.messages host trace.steps (k + 1)

/-- The same where no message is trimmed. -/
def wholeConversation (k : Nat) : Option (List (Message fl.Num)) :=
  (w.askedWith host env k).bind fun trace =>
    (w.untrimmedHistory host trace.steps).map (w.framed (k + 1))

/-- The loop asks with just these messages. -/
theorem after_of_conversation {k : Nat} {ms : List (Message fl.Num)}
    (h : w.conversation host env k = some ms) :
    ∃ trace, w.askedWith host env k = some trace ∧ w.messages host trace.steps (k + 1) = some ms ∧
      w.after host env (k + 1) = perform host (thought host env trace (k + 1)) (env.tools (k + 1))
        (k + 1) (think host (env.replies (k + 1))).action := by
  obtain ⟨trace, htrace, hms⟩ := Option.bind_eq_some_iff.mp h
  refine ⟨trace, htrace, hms, ?_⟩
  rw [askedWith] at htrace
  split at htrace
  · rename_i before hbefore
    obtain rfl := Option.some.inj htrace
    rw [after, hbefore]
    simp only [step, hms]
  · cases htrace

/-! What the tools return has no part in what the provider gets. -/

/-- Two traces that differ in what the tools have returned only. -/
structure Alike (trace trace' : Trace fl.Num) : Prop where
  steps : trace.steps.map StepRecord.veil = trace'.steps.map StepRecord.veil
  finalOutput : trace.finalOutput = trace'.finalOutput

/-- While the loop of the one goes on, so does that of the other. -/
inductive Abreast : Progress fl.Num → Progress fl.Num → Prop
  | running {trace trace' : Trace fl.Num} (h : Alike trace trace') :
      Abreast (.running trace) (.running trace')
  | left {p p' : Progress fl.Num} (hp : ∀ trace, p ≠ .running trace)
      (hp' : ∀ trace, p' ≠ .running trace) : Abreast p p'

variable {host} {trace trace' : Trace fl.Num}

theorem Abreast.cases {p p' : Progress fl.Num} (h : Abreast p p') :
    (∃ trace trace', p = .running trace ∧ p' = .running trace' ∧ Alike trace trace') ∨
      (∀ trace, p ≠ .running trace) ∧ ∀ trace, p' ≠ .running trace := by
  cases h with
  | running h => exact .inl ⟨_, _, rfl, rfl, h⟩
  | left hp hp' => exact .inr ⟨hp, hp'⟩

theorem Alike.recordStep (h : Alike trace trace') (stepType : StepType) (content : Content fl.Num)
    (toolName toolInput toolOutput toolOutput' tokenCount : Value fl.Num) :
    Alike (recordStep host trace stepType content toolName toolInput toolOutput tokenCount)
      (recordStep host trace' stepType content toolName toolInput toolOutput' tokenCount) where
  steps := by
    have hlength : trace.steps.length = trace'.steps.length := by
      rw [← List.length_map StepRecord.veil, h.steps, List.length_map]
    simp only [AgentWorker.recordStep, List.map_append, List.map_cons, List.map_nil, h.steps,
      hlength]
    rfl
  finalOutput := h.finalOutput

theorem Alike.perform (h : Alike trace trace') (executed executed' : Executed fl.Num) (k : Nat)
    (action : Value fl.Num) :
    Abreast (perform host trace executed k action) (perform host trace' executed' k action) := by
  cases action with
  | obj action =>
      simp only [AgentWorker.perform]
      split
      · exact .running (h.recordStep _ _ _ _ _ _ _)
      split
      · split
        · exact .left (fun _ h => by cases h) fun _ h => by cases h
        · exact .left (fun _ h => by cases h) fun _ h => by cases h
      split
      · split
        · exact .left (fun _ h => by cases h) fun _ h => by cases h
        · exact .left (fun _ h => by cases h) fun _ h => by cases h
      · exact .running h
  | _ => exact .left (fun _ h => by cases h) fun _ h => by cases h

theorem Alike.messages (h : Alike trace trace') (hongoing : trace.Ongoing) (hongoing' : trace'.Ongoing)
    (k : Nat) : w.messages host trace.steps k = w.messages host trace'.steps k := by
  rw [AgentWorker.messages, AgentWorker.messages, ← w.history_veil host hongoing, h.steps,
    w.history_veil host hongoing']

theorem Alike.untrimmedHistory (h : Alike trace trace') (hongoing : trace.Ongoing)
    (hongoing' : trace'.Ongoing) :
    w.untrimmedHistory host trace.steps = w.untrimmedHistory host trace'.steps := by
  rw [← w.untrimmedHistory_veil host hongoing, h.steps, w.untrimmedHistory_veil host hongoing']

variable (host) (tools : Nat → Executed fl.Num)

theorem ongoing_observed (h : trace.Ongoing) (k : Nat) : (w.observed host env trace k).Ongoing :=
  ongoing_recordStep host h (by decide : StepType.observation.Ongoing) _ _ _ _ _

/-- Where two runs are abreast, either both have recorded alike and go on, or
both have left the loop. -/
theorem observed_cases {k : Nat}
    (habreast : Abreast (w.after host env k) (w.after host { env with tools := tools } k)) :
    (∃ trace trace', w.after host env k = .running trace ∧
      w.after host { env with tools := tools } k = .running trace' ∧
      (w.observed host env trace (k + 1)).Ongoing ∧
      (w.observed host { env with tools := tools } trace' (k + 1)).Ongoing ∧
      Alike (w.observed host env trace (k + 1))
        (w.observed host { env with tools := tools } trace' (k + 1))) ∨
      (∀ trace, w.after host env k ≠ .running trace) ∧
        ∀ trace, w.after host { env with tools := tools } k ≠ .running trace := by
  rcases habreast.cases with ⟨trace, trace', hbefore, hbefore', h⟩ | hleft
  · exact .inl ⟨trace, trace', hbefore, hbefore',
      w.ongoing_observed host env (w.ongoing_after host env hbefore) (k + 1),
      w.ongoing_observed host _ (w.ongoing_after host _ hbefore') (k + 1),
      h.recordStep _ _ _ _ _ _ _⟩
  · exact .inr hleft

/-- Two runs with different results of tools go on side by side. -/
theorem after_abreast (k : Nat) :
    Abreast (w.after host env k) (w.after host { env with tools := tools } k) := by
  induction k with
  | zero => exact .running ⟨rfl, rfl⟩
  | succ k ih =>
      rcases w.observed_cases host env tools ih with
        ⟨trace, trace', hbefore, hbefore', hongoing, hongoing', hobserved⟩ | ⟨hp, hp'⟩
      · obtain ⟨ms, hms⟩ := Option.isSome_iff_exists.mp (w.messages_isSome host hongoing (k + 1))
        have hms' := hms
        rw [hobserved.messages w hongoing hongoing'] at hms'
        rw [after, after, hbefore, hbefore']
        simp only [step, hms, hms']
        exact (hobserved.recordStep _ _ _ _ _ _ _).perform _ _ _ _
      · have hleft := w.after_of_left host env (Nat.le_succ k) fun hasked => hasked.elim hp
        have hleft' := w.after_of_left host { env with tools := tools } (Nat.le_succ k)
          fun hasked => hasked.elim hp'
        rw [hleft, hleft']
        exact ih

theorem conversation_tools (k : Nat) :
    w.conversation host { env with tools := tools } k = w.conversation host env k ∧
      w.wholeConversation host { env with tools := tools } k = w.wholeConversation host env k := by
  have habreast := w.after_abreast host env tools k
  rw [conversation, conversation, wholeConversation, wholeConversation]
  rcases w.observed_cases host env tools habreast with
    ⟨trace, trace', hbefore, hbefore', hongoing, hongoing', hobserved⟩ | ⟨hp, hp'⟩
  · rw [askedWith, askedWith, hbefore, hbefore']
    simp only [Option.bind_some]
    rw [hobserved.messages w hongoing hongoing', hobserved.untrimmedHistory w hongoing hongoing']
    exact ⟨rfl, rfl⟩
  · rw [w.askedWith_none host env hp, w.askedWith_none host _ hp']
    exact ⟨rfl, rfl⟩

/-- The first characters of the JSON of a result. -/
def resultText (result : Value fl.Num) : List Char := (dumps fl result).take 500

/-- Step k + 1 is reached and calls a tool, and there is a step behind it. -/
structure Calls (k : Nat) (action : List (String × Value fl.Num)) : Prop where
  next : k + 1 < w.maxSteps
  reached : ∀ j < k, (env.replies (j + 1)).GoesOn host
  answer : (env.replies (k + 1)).action host = some (.obj action)
  call : isText (Reply.typeOf action) "tool_call" = true

/-- The provider gets the text at step k + 1, or would if no message was trimmed. -/
def Shown (k : Nat) (text : List Char) : Prop :=
  (∃ ms, w.conversation host env k = some ms ∧ ∃ m ∈ ms, text <:+: host.shown m.content) ∨
    ∃ ms, w.wholeConversation host env k = some ms ∧ ∃ m ∈ ms, text <:+: host.shown m.content

/-- The result of each call is among the messages of the next step. -/
def Reported : Prop :=
  ∀ k action, w.Calls host env k action →
    w.Shown host env (k + 1) (resultText (act host action (env.tools (k + 1))))

/-- Another result of a call makes a difference to the provider, at whatever step. -/
def Distinguished : Prop :=
  ∀ k action executed, w.Calls host env k action →
    resultText (act host action executed) ≠ resultText (act host action (env.tools (k + 1))) →
    ∃ j, w.conversation host { env with tools := Function.update env.tools (k + 1) executed } j ≠
      w.conversation host env j

/-- After a call the provider is asked again. -/
theorem Calls.conversation_isSome {w : AgentWorker} {env : Surroundings fl.Num} {k : Nat}
    {action : List (String × Value fl.Num)} (h : w.Calls host env k action) :
    (w.conversation host env (k + 1)).isSome := by
  have hgoes : ∀ j < k + 1, (env.replies (j + 1)).GoesOn host :=
    Nat.forall_lt_succ_right.mpr ⟨h.reached, action, h.answer, not_isText h.call (by decide),
      not_isText h.call (by decide)⟩
  obtain ⟨trace, htrace⟩ := (w.asked_iff host env).mpr hgoes
  rw [conversation, askedWith, htrace]
  exact w.messages_isSome host (w.ongoing_observed host env (w.ongoing_after host env htrace) _) _

theorem exists_other_result {action : List (String × Value fl.Num)}
    (hnamed : host.truthy (field action "tool_name" (.str "")) = true) (d : fl.Num)
    (text : List Char) : ∃ executed, resultText (act host action executed) ≠ text := by
  by_contra hnone
  push Not at hnone
  have hsame := (hnone (.returns [] d)).trans (hnone (.raises "" d)).symm
  simp only [act, hnamed, if_true] at hsame
  have hthird := congrArg (fun l => l[2]?) hsame
  simp [resultText, dumps, dumpsMembers, listed, quote, setItem, escapeChar] at hthird

/-- The results reach the model only where nothing is called by its name before
the last step, and where the text for a call without a name is among the
messages by chance. -/
theorem results_reach_iff :
    w.Reported host env ∧ w.Distinguished host env ↔
      ∀ k action, w.Calls host env k action →
        host.truthy (field action "tool_name" (.str "")) = false ∧
          w.Shown host env (k + 1) (@resultText fl noToolName) := by
  have hnameless : ∀ {action : List (String × Value fl.Num)} (executed : Executed fl.Num),
      host.truthy (field action "tool_name" (.str "")) = false →
      act host action executed = noToolName := by
    intro action executed h
    simp [act, h]
  constructor
  · rintro ⟨hreported, hdistinguished⟩ k action hcalls
    have hname : host.truthy (field action "tool_name" (.str "")) = false := by
      by_contra hnamed
      obtain ⟨d⟩ : Nonempty fl.Num := by
        cases env.tools (k + 1) with
        | returns result duration => exact ⟨duration⟩
        | raises error duration => exact ⟨duration⟩
      obtain ⟨executed, hother⟩ := exists_other_result host (Bool.not_eq_false _ ▸ hnamed) d
        (resultText (act host action (env.tools (k + 1))))
      obtain ⟨j, hj⟩ := hdistinguished k action executed hcalls hother
      exact hj (w.conversation_tools host env _ j).1
    refine ⟨hname, ?_⟩
    have hshown := hreported k action hcalls
    rwa [hnameless _ hname] at hshown
  · intro h
    refine ⟨fun k action hcalls => ?_, fun k action executed hcalls hother => ?_⟩
    · obtain ⟨hname, hshown⟩ := h k action hcalls
      rwa [hnameless _ hname]
    · obtain ⟨hname, -⟩ := h k action hcalls
      rw [hnameless _ hname, hnameless _ hname] at hother
      exact absurd rfl hother

/-- A call of a tool, in a fence as the system prompt asks for it. -/
def searching : ActionText .single [("type", .str "tool_call"), ("tool_name", .str "search")] :=
  .ofDumps _ (by simp [Ok, OkMembers]) (by simp)

theorem blank_newline : Blank ['\n'] := by
  simp [Blank]
  decide

def lined : Layout := .fenced ['\n'] ['\n'] blank_newline blank_newline

def calling : Surroundings Floats.single.Num where
  recalled _ := []
  toolStatus _ := none
  replies _ := .returns (.obj [("content", .str (String.ofList (lined.lay searching.text)))])
  tools _ := .raises "" ()

theorem calling_action (k : Nat) : (calling.replies k).action plainHost =
    some (.obj [("type", .str "tool_call"), ("tool_name", .str "search")]) := by
  have hparsed : parseAction plainHost (lined.lay searching.text) = _ :=
    (extracts_of_lined plainHost searching ⟨[], by decide, by decide, by decide⟩ blank_newline
      blank_newline (by decide)).1
  have husage : [("content", Value.str (String.ofList (lined.lay searching.text)))].lookup "usage" =
      (none : Option (Value Floats.single.Num)) := rfl
  have htokens : ([] : List (String × Value Floats.single.Num)).lookup "total_tokens" = none := rfl
  simp only [calling, Reply.action, thoughtOf, received, field, List.lookup_cons_self, husage,
    htokens, Option.getD_some, Option.getD_none]
  simp [countable, hparsed]

/-- What the tool returns at the first of two steps is in no message of the second. -/
theorem not_results_reach :
    ¬ ∀ (fl : Floats) (host : Host fl) (w : AgentWorker) (env : Surroundings fl.Num),
      w.Reported host env ∧ w.Distinguished host env := by
  intro h
  have hname := ((twoSteps.results_reach_iff plainHost calling).mp (h .single plainHost twoSteps calling)
    0 _ ⟨by decide, fun j hj => (Nat.not_lt_zero j hj).elim, calling_action 1, by decide⟩).1
  exact absurd hname (by decide)

end AgentWorker

end Prodinamik.Agents
