import Mathlib.Data.List.AList
import Mathlib.Data.Rat.Defs
import Mathlib.Data.String.Basic

namespace Prodinamik.Access

/-- A value of a JSON body. Of an array or an object it is told only what it
reads like and whether it is empty. -/
inductive Value
  | null
  | bool (b : Bool)
  | number (n : Rat)
  | text (s : String)
  | container (json : String) (empty : Bool)
  deriving DecidableEq, Repr

namespace Value

def truthy : Value → Bool
  | null => false
  | bool b => b
  | number n => n ≠ 0
  | text s => s ≠ ""
  | container _ empty => !empty

/-- Arrays and objects are no keys of a dict. -/
def hashable : Value → Bool
  | container _ _ => false
  | _ => true

end Value

/-- What a reviewer says. -/
inductive Verdict
  | approve
  | reject
  deriving DecidableEq, Repr

inductive PauseReason
  | humanReview
  | budgetExceeded
  | errorThreshold
  | manual
  | security
  deriving DecidableEq, Repr

inductive ApprovalStatus
  | pending
  | approved
  | rejected
  | timeoutAuto
  | cancelled
  deriving DecidableEq, Repr

structure PausedTask where
  taskId : String
  reason : PauseReason := .humanReview
  pausedAt : Int
  resumedAt : Option Int := none
  approvalStatus : ApprovalStatus := .pending
  approvedBy : Value := .text ""
  rejectedBy : Value := .text ""
  feedback : Value := .text ""
  goal : String := ""
  error : String := ""
  autoApproveTimeout : Option Rat := none
  deriving DecidableEq, Repr

/-- An entry of the audit trail. -/
structure ActionLog where
  action : String
  taskId : String
  user : Value
  detail : Value
  timestamp : Int
  deriving DecidableEq, Repr

structure ApprovalGate where
  paused : AList (fun _ : String => PausedTask) := ∅
  resolved : List PausedTask := []
  auditLog : List ActionLog := []

namespace PausedTask

def resolve (p : PausedTask) (v : Verdict) (userId feedback : Value) (now : Int) : PausedTask :=
  match v with
  | .approve =>
      { p with
        approvalStatus := .approved
        approvedBy := userId
        feedback := feedback
        resumedAt := some now }
  | .reject =>
      { p with
        approvalStatus := .rejected
        rejectedBy := userId
        feedback := feedback
        resumedAt := some now }

end PausedTask

namespace Verdict

def action : Verdict → String
  | approve => "approve"
  | reject => "reject"

end Verdict

namespace ApprovalGate

/-- none is the answer False: no such task is paused. -/
def resolveTask (v : Verdict) (g : ApprovalGate) (taskId : String) (userId feedback : Value)
    (now : Int) : Option ApprovalGate :=
  (g.paused.lookup taskId).map fun p =>
    { paused := g.paused.erase taskId
      resolved := g.resolved ++ [p.resolve v userId feedback now]
      auditLog := g.auditLog ++ [⟨v.action, taskId, userId, feedback, now⟩] }

def approveTask : ApprovalGate → String → Value → Value → Int → Option ApprovalGate :=
  resolveTask .approve

def rejectTask : ApprovalGate → String → Value → Value → Int → Option ApprovalGate :=
  resolveTask .reject

end ApprovalGate

inductive EscalationReason
  | maxRetries
  | timeout
  | criticalError
  | budgetExceeded
  | securityViolation
  | manual
  deriving DecidableEq, Repr

inductive ReviewStatus
  | pending
  | approved
  | rejected
  | modified
  deriving DecidableEq, Repr

structure EscalatedItem where
  id : String
  taskId : String
  reason : EscalationReason := .maxRetries
  error : String := ""
  goal : String := ""
  status : ReviewStatus := .pending
  createdAt : Int
  reviewedBy : Value := .text ""
  reviewedAt : Option Int := none
  feedback : Value := .text ""
  deriving DecidableEq, Repr

structure HumanLoopManager where
  queue : List EscalatedItem := []
  resolved : List EscalatedItem := []
  deriving DecidableEq, Repr

namespace HumanLoopManager

def findInQueue (l : HumanLoopManager) (escalationId : String) : Option EscalatedItem :=
  l.queue.find? fun item => item.id = escalationId

def review (v : Verdict) (l : HumanLoopManager) (escalationId : String) (userId feedback : Value)
    (now : Int) : Option HumanLoopManager :=
  (l.findInQueue escalationId).map fun item =>
    { queue := l.queue.eraseP fun item => item.id = escalationId
      resolved := l.resolved ++
        [{ item with
            status := match v with
              | .approve => .approved
              | .reject => .rejected
            reviewedBy := userId
            reviewedAt := some now
            feedback := feedback }] }

def approve : HumanLoopManager → String → Value → Value → Int → Option HumanLoopManager :=
  review .approve

def reject : HumanLoopManager → String → Value → Value → Int → Option HumanLoopManager :=
  review .reject

end HumanLoopManager

inductive BudgetLevel
  | normal
  | warning
  | critical
  | exhausted
  deriving DecidableEq, Repr

structure CostEntry where
  taskId : String
  cost : Rat
  llmCall : Bool := false
  toolCall : Bool := false
  timestamp : Rat
  deriving DecidableEq, Repr

structure TaskCostRecord where
  taskId : String
  costUsd : Rat := 0
  llmCalls : Nat := 0
  toolCalls : Nat := 0
  deriving DecidableEq, Repr

/-- What has been spent; the thresholds stay as they are. -/
structure BudgetController where
  costs : List CostEntry := []
  taskCosts : List TaskCostRecord := []
  totalCost : Rat := 0
  totalLlmCalls : Nat := 0
  totalToolCalls : Nat := 0
  level : BudgetLevel := .normal
  paused : Bool := false
  pauseReason : Option String := none
  deriving DecidableEq, Repr

def BudgetController.reset (_ : BudgetController) : BudgetController := {}

end Prodinamik.Access
