import Mathlib.Algebra.Ring.Rat
import Mathlib.Data.String.Basic

namespace Prodinamik.Budget

structure LLMCall where
  model : String
  inputTokens : Int
  outputTokens : Int
  costUsd : Rat
  purpose : String
  validator : String
  wasted : Bool := false
  deriving DecidableEq, Repr

structure ComputeOp where
  phase : String
  durationS : Rat
  cores : Int
  gpu : Bool := false
  costUsd : Rat := 0
  deriving DecidableEq, Repr

structure NetworkCall where
  adapter : String
  endpoint : String
  durationMs : Int
  costUsd : Rat
  statusCode : Int := 0
  deriving DecidableEq, Repr

structure CostTracker where
  llmCalls : List LLMCall := []
  computeOps : List ComputeOp := []
  networkCalls : List NetworkCall := []
  storageBytes : Int := 0
  deriving DecidableEq, Repr

/-- __post_init__: a cost of zero is worked out from the time and the cores. -/
def ComputeOp.postInit (op : ComputeOp) : ComputeOp :=
  if op.costUsd = 0 then
    let hours := op.durationS / 3600
    { op with costUsd := hours * op.cores * (5 / 100) + if op.gpu then hours * (250 / 100) else 0 }
  else op

namespace CostTracker

/-- COST_PER_MODEL, dollars for a million input and output tokens. -/
def costPerModel : List (String × Rat × Rat) :=
  [("deepseek-v4-flash", 15 / 100, 60 / 100), ("gpt-4o", 250 / 100, 10),
    ("claude-sonnet-4", 3, 15), ("gpt-4o-mini", 15 / 100, 60 / 100)]

def costPerGbMonth : Rat := 10 / 100

def recordLlm (t : CostTracker) (model : String) (inputTokens outputTokens : Int)
    (purpose validator : String) (wasted : Bool) : Rat × CostTracker :=
  let rates := (costPerModel.lookup model).getD (0, 0)
  let cost := (inputTokens * rates.1 + outputTokens * rates.2) / 1000000
  (cost, { t with
    llmCalls := t.llmCalls ++
      [⟨model, inputTokens, outputTokens, cost, purpose, validator, wasted⟩] })

def recordCompute (t : CostTracker) (phase : String) (durationS : Rat) (cores : Int) (gpu : Bool) :
    Rat × CostTracker :=
  let op : ComputeOp := ComputeOp.postInit ⟨phase, durationS, cores, gpu, 0⟩
  (op.costUsd, { t with computeOps := t.computeOps ++ [op] })

def recordNetwork (t : CostTracker) (adapter endpoint : String) (durationMs : Int) (costUsd : Rat)
    (statusCode : Int) : Rat × CostTracker :=
  (costUsd, { t with
    networkCalls := t.networkCalls ++ [⟨adapter, endpoint, durationMs, costUsd, statusCode⟩] })

def recordStorage (t : CostTracker) (bytesCount : Int) : CostTracker :=
  { t with storageBytes := t.storageBytes + bytesCount }

def totalLlmCost (t : CostTracker) : Rat := (t.llmCalls.map LLMCall.costUsd).sum

def totalComputeCost (t : CostTracker) : Rat := (t.computeOps.map ComputeOp.costUsd).sum

def totalNetworkCost (t : CostTracker) : Rat := (t.networkCalls.map NetworkCall.costUsd).sum

def totalStorageCost (t : CostTracker) : Rat := t.storageBytes / 1024 ^ 3 * costPerGbMonth

def totalUsd (t : CostTracker) : Rat :=
  t.totalLlmCost + t.totalComputeCost + t.totalNetworkCost + t.totalStorageCost

def totalLlmCalls (t : CostTracker) : Nat := t.llmCalls.length

end CostTracker

/-- A call of one of the record methods. -/
inductive Record
  | llm (model : String) (inputTokens outputTokens : Int) (purpose validator : String)
      (wasted : Bool)
  | compute (phase : String) (durationS : Rat) (cores : Int) (gpu : Bool)
  | network (adapter endpoint : String) (durationMs : Int) (costUsd : Rat) (statusCode : Int)
  | storage (bytesCount : Int)
  deriving DecidableEq, Repr

def CostTracker.record (t : CostTracker) : Record → CostTracker
  | .llm model inputTokens outputTokens purpose validator wasted =>
      (t.recordLlm model inputTokens outputTokens purpose validator wasted).2
  | .compute phase durationS cores gpu => (t.recordCompute phase durationS cores gpu).2
  | .network adapter endpoint durationMs costUsd statusCode =>
      (t.recordNetwork adapter endpoint durationMs costUsd statusCode).2
  | .storage bytesCount => t.recordStorage bytesCount

end Prodinamik.Budget
