import Mathlib.Data.List.Basic
import Mathlib.Data.Rat.Defs
import Prodinamik.Agents.Action
import Prodinamik.Lib.PyList

namespace Prodinamik.Agents

open Lib Lib.Json

inductive StepType
  | thought
  | toolCall
  | toolResult
  | observation
  | report
  deriving DecidableEq

/-- What Python can take the beginning of. -/
inductive Content (F : Type)
  | text (s : List Char)
  | list (vs : List (Value F))

namespace Content

variable {F : Type}

def ofValue : Value F → Option (Content F)
  | .str s => some (.text s.toList)
  | .arr vs => some (.list vs)
  | _ => none

def take (n : Nat) : Content F → Content F
  | text s => .text (s.take n)
  | list vs => .list (vs.take n)

def length : Content F → Nat
  | text s => s.length
  | list vs => vs.length

end Content

/-- A step in the trace of a worker. -/
structure StepRecord (F : Type) where
  stepNumber : Nat
  stepType : StepType
  content : Content F
  toolName : Value F
  toolInput : Value F
  toolOutput : Value F
  tokenCount : Value F
  error : Option (List Char)

structure ContextConfig where
  maxTokens : Int := 8000
  reserveTokens : Int := 500
  fullFidelitySteps : Int := 5
  summaryMaxTokens : Int := 500
  truncateThreshold : Rat := 95 / 100

structure Message (F : Type) where
  role : String
  content : Content F

variable {fl : Floats} (host : Host fl)

/-- A content within a formatted string. -/
def Host.shown : Content fl.Num → List Char
  | .text s => s
  | .list vs => host.str (.arr vs)

/-- A value within a formatted string. -/
def Host.format : Value fl.Num → List Char
  | .str s => s.toList
  | v => host.str v

namespace ContextConfig

def estimateTokens (content : Content fl.Num) : Int :=
  if content.length = 0 then 0 else max 1 (content.length / 4 : Nat)

/-- Every type of step has a message. -/
def stepToMessage (step : StepRecord fl.Num) : Message fl.Num :=
  match step.stepType with
  | .thought | .report => ⟨"assistant", step.content.take 1500⟩
  | .toolCall =>
      ⟨"assistant", .text ("Tool: ".toList ++ host.format step.toolName ++ '(' ::
        (dumps fl step.toolInput).take 200 ++ [')'])⟩
  | .toolResult =>
      ⟨"user", .text ("Tool result: ".toList ++ (dumps fl step.toolOutput).take 500)⟩
  | .observation => ⟨"user", .text ("[Observe] ".toList ++ host.shown (step.content.take 500))⟩

/-- The findings of a summary; none is the TypeError of joining what is no text. -/
def joined (conclusions : List (Content fl.Num)) : Option (List Char) :=
  (conclusions.mapM fun c : Content fl.Num =>
    match c with
    | .text s => some s
    | .list _ => none).map fun texts => List.intercalate "; ".toList texts

def compileStepSummary (steps : List (StepRecord fl.Num)) : Option (List Char) :=
  let toolCalls := steps.countP fun s => s.stepType = .toolCall
  let thoughts := steps.countP fun s => s.stepType = .thought
  let conclusions := (steps.filter fun s => s.stepType = .report).map fun s => s.content.take 200
  let counts := (toString steps.length ++ " steps executed (" ++ toString thoughts ++
    " thoughts, " ++ toString toolCalls ++ " tool calls).").toList
  if conclusions.isEmpty then some counts
  else (joined (conclusions.take 3)).map fun findings =>
    counts ++ ' ' :: ("Key findings: ".toList ++ findings)

/-- One message of _trim_messages, which goes through them from the last to the
first; a system message is always a text. -/
def trimStep (maxTokens : Int) (trimmed : List (Message fl.Num) × Int) (msg : Message fl.Num) :
    List (Message fl.Num) × Int :=
  let tokens := estimateTokens msg.content
  if trimmed.2 + tokens ≤ maxTokens then (msg :: trimmed.1, trimmed.2 + tokens)
  else if msg.role = "system" then
    let truncated := msg.content.take (max 100 (maxTokens / 4)).toNat
    (⟨"system", .text (host.shown truncated ++ "...".toList)⟩ :: trimmed.1,
      trimmed.2 + (truncated.length / 4 : Nat))
  else trimmed

def trimMessages (messages : List (Message fl.Num)) (maxTokens : Int) : List (Message fl.Num) :=
  (messages.reverse.foldl (trimStep host maxTokens) ([], 0)).1

variable (config : ContextConfig)

/-- The messages for the steps of a worker before any is trimmed. -/
def untrimmed (steps : List (StepRecord fl.Num)) : Option (List (Message fl.Num)) :=
  let split := ((steps.length : Int) - config.fullFidelitySteps).toNat
  let recent := (steps.drop split).map (stepToMessage host)
  if split = 0 then some recent
  else (compileStepSummary (steps.take split)).map fun summary =>
    ⟨"system", .text ("[Previous steps summary]: ".toList ++
      PyList.slice summary config.summaryMaxTokens)⟩ :: recent

def summarize (steps : List (StepRecord fl.Num)) : Option (List (Message fl.Num)) :=
  (config.untrimmed host steps).map fun messages =>
    let total := messages.foldl (fun total m => total + estimateTokens m.content) 0
    let available := config.maxTokens - config.reserveTokens
    if available < total then trimMessages host messages available else messages

end ContextConfig

end Prodinamik.Agents
