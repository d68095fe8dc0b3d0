import Prodinamik.Agents.ContextManager

namespace Prodinamik.Agents

open Lib Lib.Json

variable {fl : Floats}

/-- What the provider does when it is asked. -/
inductive Reply (F : Type)
  | raises (error : List Char)
  | returns (response : Value F)

/-- What the executor does with a call: the result as a dict, or an exception,
and the milliseconds it takes. -/
inductive Executed (F : Type)
  | returns (result : List (String × Value F)) (duration : F)
  | raises (error : String) (duration : F)

/-- What a run meets with at each of its steps: the lines on memories, the
status of the executor as a text, the provider and the executor. -/
structure Surroundings (F : Type) where
  recalled : Nat → List (List Char)
  toolStatus : Nat → Option (List Char)
  replies : Nat → Reply F
  tools : Nat → Executed F

/-- A worker that has a provider; its history is a plain one where it has no
context manager. -/
structure AgentWorker where
  goal : List Char
  systemPrompt : List Char
  maxSteps : Nat := 20
  contextMgr : Option ContextConfig := some { maxTokens := 8000 }

/-- What a run of a worker has written down. -/
structure Trace (F : Type) where
  steps : List (StepRecord F) := []
  finalOutput : Value F := .obj []

structure Thought (F : Type) where
  content : List Char
  action : Value F
  usage : List (String × Value F)

structure AgentStep (F : Type) where
  stepId : String
  description : Content F
  tool : Value F
  input : Value F
  output : Value F
  status : String
  error : Option (List Char)

structure AgentResult (F : Type) where
  success : Bool
  summary : Value F
  steps : List (AgentStep F) := []
  output : Value F
  error : Value F := .null

inductive Progress (F : Type)
  | running (trace : Trace F)
  | completed (stepCount : Nat) (trace : Trace F)
  | returned (result : AgentResult F)
  | raised (trace : Trace F) (e : Raised F)

/-- action.get(key, default) -/
def field (members : List (String × Value fl.Num)) (key : String) (default : Value fl.Num) :
    Value fl.Num :=
  (members.lookup key).getD default

def isText (v : Value fl.Num) (text : String) : Bool :=
  match v with
  | .str s => s = text
  | _ => false

def textOf (s : List Char) : Value fl.Num := .str (String.ofList s)

namespace AgentWorker

variable (host : Host fl)

/-- x or {} -/
def orEmpty (v : Value fl.Num) : Value fl.Num := if host.truthy v then v else .obj []

def recordStep (trace : Trace fl.Num) (stepType : StepType) (content : Content fl.Num)
    (toolName : Value fl.Num := .str "") (toolInput : Value fl.Num := .obj [])
    (toolOutput : Value fl.Num := .obj []) (tokenCount : Value fl.Num := .int 0) : Trace fl.Num :=
  { trace with
    steps := trace.steps ++ [{
      stepNumber := trace.steps.length + 1
      stepType := stepType
      content := content.take 1000
      toolName := toolName
      toolInput := orEmpty host toolInput
      toolOutput := orEmpty host toolOutput
      tokenCount := tokenCount
      error := none }] }

def convertStep (s : StepRecord fl.Num) : AgentStep fl.Num where
  stepId := "step_" ++ toString s.stepNumber
  description := s.content.take 200
  tool := if host.truthy s.toolName then s.toolName else .null
  input := s.toolInput
  output := s.toolOutput
  status := if s.error.isNone then "completed" else "failed"
  error := s.error

def convertSteps (trace : Trace fl.Num) : List (AgentStep fl.Num) :=
  trace.steps.map (convertStep host)

/-- f"Step {k}/{n}" and the like -/
def counted (w : AgentWorker) (k : Nat) : List Char := (toString k ++ "/" ++ toString w.maxSteps).toList

def observe (w : AgentWorker) (env : Surroundings fl.Num) (k : Nat) : List Char :=
  let warning : List (List Char) :=
    match w.contextMgr with
    | some config =>
        if config.maxTokens - config.reserveTokens < 500 then ["WARNING: Token budget running low".toList]
        else []
    | none => []
  let status := ((env.toolStatus k).map fun s => "Tool system: ".toList ++ s).toList
  List.intercalate ['\n'] (env.recalled k ++ warning ++ status ++ ["Step ".toList ++ w.counted k])

/-- The history without a context manager: the last ten steps. -/
def plainMessage (step : StepRecord fl.Num) : Message fl.Num :=
  ⟨if step.stepType = .thought ∨ step.stepType = .report then "assistant" else "user",
    step.content.take 500⟩

def history (w : AgentWorker) (steps : List (StepRecord fl.Num)) : Option (List (Message fl.Num)) :=
  match w.contextMgr with
  | some config => config.summarize host steps
  | none => some ((steps.drop (steps.length - 10)).map plainMessage)

/-- The system prompt before the history, and the goal reminder behind it. -/
def framed (w : AgentWorker) (k : Nat) (history : List (Message fl.Num)) : List (Message fl.Num) :=
  ⟨"system", .text w.systemPrompt⟩ :: (history ++
    [⟨"user", .text ("Continue working on: ".toList ++ w.goal ++ "\nCurrent step: ".toList ++ w.counted k)⟩])

/-- The messages that the provider gets at a step. -/
def messages (w : AgentWorker) (steps : List (StepRecord fl.Num)) (k : Nat) :
    Option (List (Message fl.Num)) :=
  (w.history host steps).map (w.framed k)

def fallbackThink : Thought fl.Num where
  content := "No LLM provider available. Operating in fallback mode.".toList
  action := .obj [("type", .str "complete"), ("summary", .str "Fallback mode — no action taken"),
    ("output", .obj [("note", .str "LLM provider not configured")])]
  usage := []

/-- What can be added to the number of tokens. -/
def countable : Value fl.Num → Bool
  | .bool _ | .int _ | .float _ => true
  | _ => false

/-- What a response says; none is an exception on the way. -/
def received (response : Value fl.Num) : Option (Thought fl.Num) :=
  match response with
  | .obj response =>
      match field response "content" (.str ""), field response "usage" (.obj []) with
      | .str content, .obj usage =>
          if countable (field usage "total_tokens" (.int 0)) then
            some ⟨content.toList, parseAction host content.toList, usage⟩
          else none
      | _, _ => none
  | _ => none

/-- The thought that a reply is; none where the provider has failed. -/
def thoughtOf : Reply fl.Num → Option (Thought fl.Num)
  | .raises _ => none
  | .returns response => received host response

/-- _think, once it has the messages. -/
def think (reply : Reply fl.Num) : Thought fl.Num := (thoughtOf host reply).getD fallbackThink

def noToolName : Value fl.Num :=
  .obj [("error", .str "No tool name specified"), ("_duration_ms", .int 0)]

/-- The dict that _act makes of what the executor does. -/
def act (action : List (String × Value fl.Num)) (executed : Executed fl.Num) : Value fl.Num :=
  let toolName := field action "tool_name" (.str "")
  if host.truthy toolName then
    match executed with
    | .returns result duration => .obj (setItem result ("_duration_ms", .float duration))
    | .raises error duration =>
        .obj [("error", .str error), ("_duration_ms", .float duration), ("tool_name", toolName)]
  else noToolName

def perform (trace : Trace fl.Num) (executed : Executed fl.Num) (k : Nat) :
    Value fl.Num → Progress fl.Num
  | .obj action =>
      let type := field action "type" (.str "none")
      if isText type "tool_call" then
        .running (recordStep host trace .toolCall
          (.text ("Tool: ".toList ++ host.format (field action "tool_name" (.str "unknown"))))
          (field action "tool_name" (.str "")) (field action "parameters" (.obj []))
          (act host action executed))
      else if isText type "complete" then
        let trace := { trace with finalOutput := field action "output" (.obj []) }
        let summary := field action "summary" (.str "Goal achieved")
        match Content.ofValue summary with
        | some content => .completed k (recordStep host trace .report content)
        | none => .raised trace (.notSliceable summary)
      else if isText type "error" then
        let error := field action "error" (.str "Unknown error")
        match Content.ofValue error with
        | some content =>
            let trace := recordStep host trace .report content
            .returned {
              success := false
              summary := field action "error" (.str "Agent encountered an error")
              steps := convertSteps host trace
              error := field action "error" .null
              output := trace.finalOutput }
        | none => .raised trace (.notSliceable error)
      else .running trace
  | action => .raised trace (.noAttribute action)

variable (w : AgentWorker) (env : Surroundings fl.Num)

def observed (trace : Trace fl.Num) (k : Nat) : Trace fl.Num :=
  recordStep host trace .observation (.text (w.observe env k))

def thought (trace : Trace fl.Num) (k : Nat) : Trace fl.Num :=
  let thought := think host (env.replies k)
  recordStep host trace .thought (.text thought.content) (.str "") (.obj []) (.obj [])
    (field thought.usage "total_tokens" (.int 0))

/-- One step of the loop; without messages the provider is not asked. -/
def step (trace : Trace fl.Num) (k : Nat) : Progress fl.Num :=
  let trace := w.observed host env trace k
  match w.messages host trace.steps k with
  | none => .raised trace .notJoined
  | some _ =>
      perform host (thought host env trace k) (env.tools k) k (think host (env.replies k)).action

def after : Nat → Progress fl.Num
  | 0 => .running {}
  | k + 1 =>
    match after k with
    | .running trace => w.step host env trace (k + 1)
    | progress => progress

def maxStepsReached (trace : Trace fl.Num) : AgentResult fl.Num where
  success := false
  summary := textOf ("Max steps (".toList ++ (toString w.maxSteps).toList ++ ") reached".toList)
  steps := convertSteps host trace
  output := trace.finalOutput

def failed (trace : Trace fl.Num) (e : Raised fl.Num) : AgentResult fl.Num where
  success := false
  summary := textOf ("Execution error: ".toList ++ host.message e)
  error := textOf (host.message e)
  output := trace.finalOutput

def succeeded (trace : Trace fl.Num) : AgentResult fl.Num :=
  match trace.finalOutput with
  | .obj output =>
      { success := true
        summary := field output "summary" (.str "Task completed")
        steps := convertSteps host trace
        output := trace.finalOutput }
  | output => failed host trace (.noAttribute output)

def execute : AgentResult fl.Num :=
  match w.after host env w.maxSteps with
  | .running trace => w.maxStepsReached host trace
  | .completed stepCount trace =>
      if w.maxSteps ≤ stepCount then w.maxStepsReached host trace else succeeded host trace
  | .returned result => result
  | .raised trace e => failed host trace e

end AgentWorker

end Prodinamik.Agents
