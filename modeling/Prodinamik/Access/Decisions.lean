import Prodinamik.Access.Approval
import Prodinamik.Access.Server

namespace Prodinamik.Access

namespace EscalationReason

def value : EscalationReason → String
  | maxRetries => "max_retries"
  | timeout => "timeout"
  | criticalError => "critical_error"
  | budgetExceeded => "budget_exceeded"
  | securityViolation => "security_violation"
  | manual => "manual"

end EscalationReason

def ReviewStatus.value : ReviewStatus → String
  | pending => "pending"
  | approved => "approved"
  | rejected => "rejected"
  | modified => "modified"

def ApprovalStatus.value : ApprovalStatus → String
  | pending => "pending"
  | approved => "approved"
  | rejected => "rejected"
  | timeoutAuto => "timeout_auto"
  | cancelled => "cancelled"

/-- What escalate is given, with the first eight digits of its new uuid. -/
structure Escalation where
  hex : String
  taskId : String
  error : String := ""
  reason : EscalationReason := .maxRetries
  goal : String := ""
  now : Int
  deriving DecidableEq, Repr

namespace HumanLoopManager

def escalate (l : HumanLoopManager) (e : Escalation) : HumanLoopManager :=
  { l with
    queue := l.queue ++
      [{ id := "esc-" ++ e.hex, taskId := e.taskId, reason := e.reason, error := e.error,
         goal := e.goal, createdAt := e.now }] }

def getPending (l : HumanLoopManager) : List EscalatedItem :=
  l.queue.filter fun item => item.status = .pending

end HumanLoopManager

structure ListedEscalation where
  id : String
  taskId : String
  reason : String
  error : String
  goal : String
  status : String
  createdAt : Int
  ageSeconds : Rat
  deriving DecidableEq, Repr

structure ListedPause where
  taskId : String
  reason : String
  goal : String
  error : String
  status : String
  pausedAt : Int
  ageSeconds : Rat
  isStale : Bool
  deriving DecidableEq, Repr

/-- What GET /api/v1/human/approvals answers. -/
structure Approvals where
  humanLoopPending : List ListedEscalation
  approvalGatePending : List ListedPause
  totalPending : Nat
  deriving DecidableEq, Repr

namespace Approvals

/-- The task ids that are listed under a component. -/
def tasksOf (a : Approvals) (source : String) : List String :=
  if source = "approval_gate" then a.approvalGatePending.map ListedPause.taskId
  else if source = "human_loop" then a.humanLoopPending.map ListedEscalation.taskId
  else []

end Approvals

namespace Server

def apiHumanApprovals (s : Server) (now : Int) : Approvals :=
  let loop := (s.humanLoop.elim [] HumanLoopManager.getPending).map fun item =>
    { id := item.id, taskId := item.taskId, reason := item.reason.value, error := item.error,
      goal := item.goal, status := item.status.value, createdAt := item.createdAt,
      ageSeconds := (now - item.createdAt : Int) / 1000000 }
  let gate := (s.approvalGate.elim [] ApprovalGate.getPaused).map fun p =>
    { taskId := p.taskId, reason := p.reason.value, goal := p.goal, error := p.error,
      status := p.approvalStatus.value, pausedAt := p.pausedAt, ageSeconds := p.ageSeconds now,
      isStale := p.isStale now }
  ⟨loop, gate, loop.length + gate.length⟩

/-- What changes the two components: calls of their own and the decisions of
the reviewers. -/
inductive Deed
  | gate (c : GateCall)
  | escalate (e : Escalation)
  | review (v : Verdict) (escalationId userId feedback : String) (now : Int)
  | decide (v : Verdict) (auth : AuthResult) (body : Body) (now : Int)

def deed (gateTimeout : Option Rat) (s : Server) : Deed → Server
  | .gate c => { s with approvalGate := s.approvalGate.map fun g => g.call gateTimeout c }
  | .escalate e => { s with humanLoop := s.humanLoop.map fun l => l.escalate e }
  | .review v escalationId userId feedback now =>
      { s with
        humanLoop := s.humanLoop.map fun l =>
          (l.review v escalationId (.text userId) (.text feedback) now).getD l }
  | .decide v auth body now => (s.apiHuman v auth body now).1

/-- A server whose components, where it has them, are new. -/
def fresh (m : AuthManager) (hasGate hasLoop : Bool) (b : Option BudgetController) : Server where
  authManager := m
  approvalGate := if hasGate then some {} else none
  humanLoop := if hasLoop then some {} else none
  budgetController := b

/-- Whoever posts the task id is told of success, and the task is no longer
listed under the component that the answer names. -/
def Decided (v : Verdict) (s : Server) (taskId : String) : Prop :=
  ∀ (auth : AuthResult) (fields : List (String × Value)) (now later : Int),
    fields.lookup "task_id" = some (.text taskId) →
      ∃ source ∈ ["approval_gate", "human_loop"],
        (s.apiHuman v auth (.object fields) now).2 =
          .json 200 [("status", .text (resolved v)), ("task_id", .text taskId),
            (resolved v ++ "_by", userId auth fields), ("source", .text source)] ∧
        taskId ∉ ((s.apiHuman v auth (.object fields) now).1.apiHumanApprovals later).tasksOf source

/-- The task is paused in the gate, or its only escalation is the first item
whose own id is the task's. -/
def Found (s : Server) (taskId : String) : Prop :=
  taskId ≠ "" ∧ ((∃ g, s.approvalGate = some g ∧ taskId ∈ g.paused) ∨
    ∃ l item, s.humanLoop = some l ∧ l.findInQueue taskId = some item ∧
      (l.queue.filter fun item => item.taskId = taskId) = [item])

/-- All that the components keep as open waits. -/
def Waiting (s : Server) : Prop :=
  (∀ g, s.approvalGate = some g → g.Keyed) ∧
    ∀ l, s.humanLoop = some l → ∀ item ∈ l.queue, item.status = .pending

end Server

namespace ApprovalGate

theorem paused_resolveTask {v : Verdict} {g g' : ApprovalGate} {t : String} {user feedback : Value}
    {now : Int} (h : g.resolveTask v t user feedback now = some g') :
    g'.paused = g.paused.erase t := by
  obtain ⟨p, -, rfl⟩ := Option.map_eq_some_iff.mp h
  rfl

theorem resolveTask_eq_none {v : Verdict} {g : ApprovalGate} {t : String} {user feedback : Value}
    {now : Int} : g.resolveTask v t user feedback now = none ↔ t ∉ g.paused := by
  rw [resolveTask, Option.map_eq_none_iff, AList.lookup_eq_none]

theorem Keyed.erase {g g' : ApprovalGate} (hk : g.Keyed) {t : String}
    (h : g'.paused = g.paused.erase t) : g'.Keyed :=
  hk.of_subset (h ▸ (List.kerase_sublist _ _).subset)

end ApprovalGate

namespace HumanLoopManager

theorem queue_review {v : Verdict} {l l' : HumanLoopManager} {i : String} {user feedback : Value}
    {now : Int} (h : l.review v i user feedback now = some l') :
    l'.queue = l.queue.eraseP fun item => item.id = i := by
  obtain ⟨item, -, rfl⟩ := Option.map_eq_some_iff.mp h
  rfl

theorem review_eq_none {v : Verdict} {l : HumanLoopManager} {i : String} {user feedback : Value}
    {now : Int} : l.review v i user feedback now = none ↔ l.findInQueue i = none :=
  Option.map_eq_none_iff

/-- What is left of a task once the item that is found is gone. -/
theorem filter_eraseP {l : HumanLoopManager} {i t : String} {item : EscalatedItem}
    (h : l.findInQueue i = some item) :
    (∃ x ∈ l.queue, x.taskId = t) →
      ((∀ x ∈ l.queue.eraseP fun item => item.id = i, x.taskId ≠ t) ↔
        (l.queue.filter fun item => item.taskId = t) = [item]) := by
  obtain ⟨hid, before, after, hqueue, hbefore⟩ := List.find?_eq_some_iff_append.mp h
  have herase : (l.queue.eraseP fun item => item.id = i) = before ++ after := by
    rw [hqueue, List.eraseP_append_right _ (by simpa using hbefore), List.eraseP_cons, hid,
      cond_true]
  rw [herase, hqueue]
  intro hsome
  constructor
  · intro hnone
    have hb : (before.filter fun item => item.taskId = t) = [] :=
      List.filter_eq_nil_iff.mpr fun x hx => by simpa using hnone x (List.mem_append_left _ hx)
    have ha : (after.filter fun item => item.taskId = t) = [] :=
      List.filter_eq_nil_iff.mpr fun x hx => by simpa using hnone x (List.mem_append_right _ hx)
    have htask : item.taskId = t := by
      obtain ⟨x, hx, hxt⟩ := hsome
      rcases List.mem_append.mp hx with hx | hx
      · exact absurd hxt (hnone x (List.mem_append_left _ hx))
      · rcases List.mem_cons.mp hx with rfl | hx
        · exact hxt
        · exact absurd hxt (hnone x (List.mem_append_right _ hx))
    rw [List.filter_append, hb, List.filter_cons, if_pos (decide_eq_true htask), ha, List.nil_append]
  · intro honly x hx hxt
    have htask : item.taskId = t := by
      have hmem : item ∈ (before ++ item :: after).filter fun item => item.taskId = t := by
        rw [honly]
        exact List.mem_singleton_self item
      simpa using (List.mem_filter.mp hmem).2
    rw [List.filter_append, List.filter_cons, if_pos (decide_eq_true htask)] at honly
    have hlength := congrArg List.length honly
    simp only [List.length_append, List.length_cons, List.length_nil] at hlength
    have hpos : ∀ items : List EscalatedItem, x ∈ items →
        0 < (items.filter fun item => item.taskId = t).length := fun items hx =>
      List.length_pos_of_mem (List.mem_filter.mpr ⟨hx, by simpa using hxt⟩)
    rcases List.mem_append.mp hx with hx | hx
    · have := hpos before hx
      omega
    · have := hpos after hx
      omega

end HumanLoopManager

namespace Server

variable {s s' : Server} {v : Verdict} {t source : String} {user feedback : Value} {now : Int}

/-- Which component a decision changes, and how. -/
inductive Resolution (s : Server) (t : String) : Server → String → Prop
  | gate (g g' : ApprovalGate) : s.approvalGate = some g → t ∈ g.paused →
      g'.paused = g.paused.erase t →
      Resolution s t { s with approvalGate := some g' } "approval_gate"
  | loop (l l' : HumanLoopManager) (item : EscalatedItem) :
      (∀ g, s.approvalGate = some g → t ∉ g.paused) → s.humanLoop = some l →
      l.findInQueue t = some item → (l'.queue = l.queue.eraseP fun item => item.id = t) →
      Resolution s t { s with humanLoop := some l' } "human_loop"

theorem resolution_of_resolve (h : s.resolve v (.text t) user feedback now = some (s', source)) :
    Resolution s t s' source := by
  simp only [resolve] at h
  split at h
  case h_1 g' hg' =>
    obtain ⟨g, hg, hresolve⟩ := Option.bind_eq_some_iff.mp hg'
    cases h
    refine .gate g g' hg ?_ (ApprovalGate.paused_resolveTask hresolve)
    refine Classical.not_not.mp fun hno => ?_
    rw [ApprovalGate.resolveTask_eq_none.mpr hno] at hresolve
    cases hresolve
  case h_2 hnone =>
    split at h
    case h_1 l' hl' =>
      obtain ⟨l, hl, hreview⟩ := Option.bind_eq_some_iff.mp hl'
      cases h
      have hgate : ∀ g, s.approvalGate = some g → t ∉ g.paused := by
        intro g hg
        rw [hg, Option.bind_some] at hnone
        exact ApprovalGate.resolveTask_eq_none.mp hnone
      cases hfind : l.findInQueue t with
      | none =>
          rw [HumanLoopManager.review_eq_none.mpr hfind] at hreview
          cases hreview
      | some item => exact .loop l l' item hgate hl hfind (HumanLoopManager.queue_review hreview)
    case h_2 => cases h

theorem resolve_eq_none :
    s.resolve v (.text t) user feedback now = none ↔
      (∀ g, s.approvalGate = some g → t ∉ g.paused) ∧
        ∀ l, s.humanLoop = some l → l.findInQueue t = none := by
  have hgate : (s.approvalGate.bind fun g => g.resolveTask v t user feedback now) = none ↔
      ∀ g, s.approvalGate = some g → t ∉ g.paused := by
    simp [Option.bind_eq_none_iff, ApprovalGate.resolveTask_eq_none]
  have hloop : (s.humanLoop.bind fun l => l.review v t user feedback now) = none ↔
      ∀ l, s.humanLoop = some l → l.findInQueue t = none := by
    simp [Option.bind_eq_none_iff, HumanLoopManager.review_eq_none]
  rw [← hgate, ← hloop]
  simp only [resolve]
  split
  case h_1 g hg => simp [hg]
  case h_2 hg =>
    split
    case h_1 l hl => simp [hl]
    case h_2 hl => simp [hg, hl]

theorem mem_tasksOf_gate (h : s.Waiting) (later : Int) :
    t ∈ (s.apiHumanApprovals later).tasksOf "approval_gate" ↔
      ∃ g, s.approvalGate = some g ∧ t ∈ g.paused := by
  cases hg : s.approvalGate with
  | none => simp [Approvals.tasksOf, apiHumanApprovals, hg]
  | some g =>
      have hof := ApprovalGate.ofTask_getPaused (h.1 g hg) t
      have hmem : t ∈ g.getPaused.map PausedTask.taskId ↔ GateHistory.ofTask t g.getPaused ≠ [] := by
        rw [Ne, GateHistory.ofTask, List.filter_eq_nil_iff]
        simp
      have hlist : (s.apiHumanApprovals later).tasksOf "approval_gate" =
          g.getPaused.map PausedTask.taskId := by
        simp [Approvals.tasksOf, apiHumanApprovals, hg]
      rw [hlist, hmem, hof, Ne, Option.toList_eq_nil_iff, AList.lookup_eq_none, Classical.not_not]
      simp

theorem mem_tasksOf_loop (h : s.Waiting) (later : Int) :
    t ∈ (s.apiHumanApprovals later).tasksOf "human_loop" ↔
      ∃ l, s.humanLoop = some l ∧ ∃ item ∈ l.queue, item.taskId = t := by
  cases hl : s.humanLoop with
  | none => simp [Approvals.tasksOf, apiHumanApprovals, hl]
  | some l =>
      have hpending : l.getPending = l.queue :=
        List.filter_eq_self.mpr fun item hitem => decide_eq_true (h.2 l hl item hitem)
      simp [Approvals.tasksOf, apiHumanApprovals, hl, hpending]

/-- The components change by decisions of which one is a Resolution. -/
theorem Waiting.resolution (h : s.Waiting) (hr : Resolution s t s' source) : s'.Waiting := by
  cases hr with
  | gate g g' hg hmem hpaused =>
      refine ⟨fun g₁ hg₁ => ?_, h.2⟩
      cases hg₁
      exact (h.1 g hg).erase hpaused
  | loop l l' item hgate hl hfind hqueue =>
      refine ⟨h.1, fun l₁ hl₁ item hitem => ?_⟩
      cases hl₁
      exact h.2 l hl item (List.eraseP_subset (hqueue ▸ hitem))

theorem Waiting.apiHuman (h : s.Waiting) (v : Verdict) (auth : AuthResult) (body : Body)
    (now : Int) : (s.apiHuman v auth body now).1.Waiting := by
  cases body with
  | unreadable => exact h
  | notObject => exact h
  | object fields =>
      simp only [Server.apiHuman]
      split
      case isFalse => exact h
      case isTrue =>
        split
        case isTrue => exact h
        case isFalse =>
          split
          case h_2 => exact h
          case h_1 s' source hresolve =>
            cases htask : Request.field fields "task_id" (.text "") with
            | text t =>
                rw [htask] at hresolve
                exact h.resolution (resolution_of_resolve hresolve)
            | null => rw [htask] at hresolve; cases hresolve
            | bool b => rw [htask] at hresolve; cases hresolve
            | number n => rw [htask] at hresolve; cases hresolve
            | container json empty => rw [htask] at hresolve; cases hresolve

theorem Waiting.deed (h : s.Waiting) (gateTimeout : Option Rat) (d : Deed) :
    (s.deed gateTimeout d).Waiting := by
  cases d with
  | gate c =>
      refine ⟨fun g hg => ?_, h.2⟩
      obtain ⟨g₀, hg₀, rfl⟩ := Option.map_eq_some_iff.mp hg
      exact (h.1 g₀ hg₀).call gateTimeout c
  | escalate e =>
      refine ⟨h.1, fun l hl item hitem => ?_⟩
      obtain ⟨l₀, hl₀, rfl⟩ := Option.map_eq_some_iff.mp hl
      rcases List.mem_append.mp hitem with hitem | hitem
      · exact h.2 l₀ hl₀ item hitem
      · rw [List.mem_singleton.mp hitem]
  | review v i user feedback now =>
      refine ⟨h.1, fun l hl item hitem => ?_⟩
      obtain ⟨l₀, hl₀, rfl⟩ := Option.map_eq_some_iff.mp hl
      cases hreview : l₀.review v i (.text user) (.text feedback) now with
      | none =>
          rw [hreview] at hitem
          exact h.2 l₀ hl₀ item hitem
      | some l' =>
          rw [hreview, Option.getD_some, HumanLoopManager.queue_review hreview] at hitem
          exact h.2 l₀ hl₀ item (List.eraseP_subset hitem)
  | decide v auth body now => exact h.apiHuman v auth body now

theorem Waiting.deeds (h : s.Waiting) (gateTimeout : Option Rat) (deeds : List Deed) :
    (deeds.foldl (Server.deed gateTimeout) s).Waiting := by
  induction deeds generalizing s with
  | nil => exact h
  | cons d rest ih => exact ih (h.deed gateTimeout d)

theorem waiting_history (gateTimeout : Option Rat) (m : AuthManager) (hasGate hasLoop : Bool)
    (b : Option BudgetController) (deeds : List Deed) :
    (deeds.foldl (deed gateTimeout) (fresh m hasGate hasLoop b)).Waiting := by
  have hfresh : (fresh m hasGate hasLoop b).Waiting := by
    refine ⟨fun g hg => ?_, fun l hl => ?_⟩
    · cases hasGate with
      | false => cases hg
      | true =>
          cases hg
          intro item hitem
          cases hitem
    · cases hasLoop with
      | false => cases hl
      | true =>
          cases hl
          intro item hitem
          cases hitem
  exact hfresh.deeds gateTimeout deeds

theorem apiHuman_of_resolve {auth : AuthResult} {fields : List (String × Value)}
    (hfield : fields.lookup "task_id" = some (.text t)) (ht : t ≠ "")
    (h : s.resolve v (.text t) (userId auth fields)
      (Request.field fields "feedback" (.text (defaultFeedback v))) now = some (s', source)) :
    s.apiHuman v auth (.object fields) now =
      (s', .json 200 [("status", .text (resolved v)), ("task_id", .text t),
        (resolved v ++ "_by", userId auth fields), ("source", .text source)]) := by
  have htask : Request.field fields "task_id" (.text "") = .text t := by
    rw [Request.field, hfield, Option.getD_some]
  simp only [apiHuman, htask, h]
  simp [Value.truthy, Value.hashable, ht]

/-- A decision leaves nothing of the task in its component exactly if the
task's only escalation is the one that it takes. -/
theorem Waiting.notMem_of_resolution (h : s.Waiting) (hr : Resolution s t s' source)
    (hlisted : ∃ source, t ∈ (s.apiHumanApprovals now).tasksOf source) (ht : t ≠ "") (later : Int) :
    t ∉ (s'.apiHumanApprovals later).tasksOf source ↔ s.Found t := by
  have h' := h.resolution hr
  cases hr with
  | gate g g' hg hmem hpaused =>
      rw [mem_tasksOf_gate h']
      refine iff_of_true ?_ ⟨ht, .inl ⟨g, hg, hmem⟩⟩
      rintro ⟨g₁, hg₁, hmem₁⟩
      cases hg₁
      rw [hpaused] at hmem₁
      exact (AList.mem_erase.mp hmem₁).1 rfl
  | loop l l' item hgate hl hfind hqueue =>
      have hsome : ∃ x ∈ l.queue, x.taskId = t := by
        obtain ⟨source, hsource⟩ := hlisted
        by_cases hg : source = "approval_gate"
        · subst hg
          obtain ⟨g, hg, hmem⟩ := (mem_tasksOf_gate h now).mp hsource
          exact absurd hmem (hgate g hg)
        · by_cases hlo : source = "human_loop"
          · subst hlo
            obtain ⟨l₁, hl₁, hitem⟩ := (mem_tasksOf_loop h now).mp hsource
            cases hl.symm.trans hl₁
            exact hitem
          · simp [Approvals.tasksOf, hg, hlo] at hsource
      have honly := HumanLoopManager.filter_eraseP hfind hsome
      rw [mem_tasksOf_loop h']
      constructor
      · intro hnone
        refine ⟨ht, .inr ⟨l, item, hl, hfind, honly.mp fun x hx hxt => hnone ⟨l', rfl, x, ?_, hxt⟩⟩⟩
        exact hqueue ▸ hx
      · rintro ⟨-, ⟨g, hg, hmem⟩ | ⟨l₁, item₁, hl₁, hfind₁, hone⟩⟩
        · exact absurd hmem (hgate g hg)
        · cases hl.symm.trans hl₁
          cases hfind.symm.trans hfind₁
          rintro ⟨l₂, hl₂, x, hx, hxt⟩
          cases hl₂
          exact honly.mpr hone x (hqueue ▸ hx) hxt

theorem Waiting.decided_iff (h : s.Waiting) (v : Verdict)
    (hlisted : ∃ source, t ∈ (s.apiHumanApprovals now).tasksOf source) :
    s.Decided v t ↔ s.Found t := by
  constructor
  · intro hdecided
    obtain ⟨source, -, hanswer, hgone⟩ := hdecided {} [("task_id", .text t)] 0 0 rfl
    by_cases ht : t = ""
    · subst ht
      simp [Server.apiHuman, Request.field, Value.truthy] at hanswer
    · cases hresolve : s.resolve v (.text t) (userId {} [("task_id", .text t)])
        (Request.field [("task_id", .text t)] "feedback" (.text (defaultFeedback v))) 0 with
      | none =>
          have htask : Request.field [("task_id", .text t)] "task_id" (.text "") = .text t := rfl
          simp [Server.apiHuman, htask, hresolve, Value.truthy, Value.hashable, ht] at hanswer
      | some result =>
          obtain ⟨s', source'⟩ := result
          rw [apiHuman_of_resolve rfl ht hresolve] at hanswer hgone
          have hsource : source' = source := by simpa using hanswer
          subst hsource
          exact (h.notMem_of_resolution (resolution_of_resolve hresolve) hlisted ht 0).mp hgone
  · intro hfound auth fields time later hfield
    cases hresolve : s.resolve v (.text t) (userId auth fields)
        (Request.field fields "feedback" (.text (defaultFeedback v))) time with
    | none =>
        obtain ⟨hgate, hloop⟩ := resolve_eq_none.mp hresolve
        obtain ⟨-, ⟨g, hg, hmem⟩ | ⟨l, item, hl, hfind, -⟩⟩ := hfound
        · exact absurd hmem (hgate g hg)
        · rw [hloop l hl] at hfind
          cases hfind
    | some result =>
        obtain ⟨s', source⟩ := result
        have hr := resolution_of_resolve hresolve
        rw [apiHuman_of_resolve hfield hfound.1 hresolve]
        refine ⟨source, ?_, rfl, (h.notMem_of_resolution hr hlisted hfound.1 later).mpr hfound⟩
        cases hr <;> decide

/-- After any history a listed task is decided by its id exactly if it can be
found by it. -/
theorem listed_decided (gateTimeout : Option Rat) (m : AuthManager) (hasGate hasLoop : Bool)
    (b : Option BudgetController) (deeds : List Deed) (v : Verdict) (now : Int)
    (hlisted : ∃ source, t ∈ ((deeds.foldl (deed gateTimeout)
      (fresh m hasGate hasLoop b)).apiHumanApprovals now).tasksOf source) :
    (deeds.foldl (deed gateTimeout) (fresh m hasGate hasLoop b)).Decided v t ↔
      (deeds.foldl (deed gateTimeout) (fresh m hasGate hasLoop b)).Found t :=
  (waiting_history gateTimeout m hasGate hasLoop b deeds).decided_iff v hlisted

theorem listed_decided_paused :
    (∃ source, "t" ∈ (([.gate (.pauseTask ⟨"t", .manual, "", "", "", none, 0⟩)].foldl (deed none)
      (fresh {} true true none)).apiHumanApprovals 1).tasksOf source) ∧
      (([.gate (.pauseTask ⟨"t", .manual, "", "", "", none, 0⟩)].foldl (deed none)
        (fresh {} true true none)).Decided .reject "t" ↔
      ([.gate (.pauseTask ⟨"t", .manual, "", "", "", none, 0⟩)].foldl (deed none)
        (fresh {} true true none)).Found "t") := by
  have hlisted : ∃ source, "t" ∈ (([.gate (.pauseTask ⟨"t", .manual, "", "", "", none, 0⟩)].foldl
      (deed none) (fresh {} true true none)).apiHumanApprovals 1).tasksOf source :=
    ⟨"approval_gate", by decide +kernel⟩
  exact ⟨hlisted, listed_decided none {} true true none _ .reject 1 hlisted⟩

/-- An escalation is listed with its task and looked for by its own id. -/
theorem listed_undecided :
    "t" ∈ (([.escalate ⟨"0a1b2c3d", "t", "", .maxRetries, "", 0⟩].foldl (deed none)
        (fresh {} true true none)).apiHumanApprovals 1).tasksOf "human_loop" ∧
      ¬ ([.escalate ⟨"0a1b2c3d", "t", "", .maxRetries, "", 0⟩].foldl (deed none)
        (fresh {} true true none)).Decided .approve "t" := by
  refine ⟨by decide +kernel, fun hdecided => ?_⟩
  obtain ⟨source, -, hanswer, -⟩ := hdecided {} [("task_id", .text "t")] 0 0 rfl
  have hanswered : (([.escalate ⟨"0a1b2c3d", "t", "", .maxRetries, "", 0⟩].foldl (deed none)
      (fresh {} true true none)).apiHuman .approve {} (.object [("task_id", .text "t")]) 0).2 =
      .json 404 [("error", .text "Task not found in pending queue"), ("task_id", .text "t")] := by
    decide +kernel
  rw [hanswered] at hanswer
  cases hanswer

end Server

end Prodinamik.Access
