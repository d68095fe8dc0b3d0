import Mathlib.Algebra.Order.Ring.Rat
import Mathlib.Data.List.Sort
import Mathlib.Logic.Function.Basic
import Mathlib.Tactic.Linarith
import Prodinamik.Lib.Rounding
import Prodinamik.Lib.Text

namespace Prodinamik.Remediation

inductive FailureClass
  | transient
  | state
  | resource
  | validation
  | dependency
  | config
  | timeout
  | unknown
  deriving DecidableEq, Repr

inductive RemediationType
  | retry
  | backoff
  | rollback
  | cleanup
  | reset
  | reconfigure
  | escalate
  deriving DecidableEq, Repr

inductive AutoRemediationStatus
  | pending
  | running
  | success
  | failed
  | skipped
  | escalated
  deriving DecidableEq, Repr

structure FailureSignature where
  name : String
  failureClass : FailureClass
  deriving DecidableEq, Repr

/-- What a handler comes to within the time of its plan. -/
inductive Outcome
  | returns (success : Bool)
  | raises
  | timesOut

/-- A handler sees the context and whatever else it acts on. -/
structure RemediationAction (σ : Type) where
  actionType : RemediationType
  description : String
  handler : Option (σ → Outcome × σ) := none
  maxAttempts : Nat := 3
  cooldownSeconds : Rat := 10

structure RemediationPlan (σ : Type) where
  signatureName : String
  failureClass : FailureClass
  confidence : Rat
  actions : List (RemediationAction σ)
  autoExecute : Bool := false
  timeoutSeconds : Rat := 60

structure RemediationResult where
  planName : String
  status : AutoRemediationStatus
  actionResults : List (String × Bool) := []
  startedAt : Option Rat := none
  completedAt : Option Rat := none
  error : Option String := none
  durationSeconds : Rat := 0
  deriving DecidableEq

structure Clock where
  started : Rat
  checked : Rat
  completed : Rat
  cooled : Rat
  started_le : started ≤ checked
  checked_le : checked ≤ completed
  completed_le : completed ≤ cooled

structure AutoRemediator where
  results : List RemediationResult := []
  history : String → Nat := fun _ => 0
  cooldowns : String → Option Rat := fun _ => none

variable {σ : Type}

def Outcome.success : Outcome → Bool
  | returns success => success
  | raises => false
  | timesOut => false

/-- What counts is whether the handler returned something true. -/
def RemediationAction.execute (a : RemediationAction σ) (w : σ) : Bool × σ :=
  match a.handler with
  | none => (false, w)
  | some handler => ((handler w).1.success, (handler w).2)

namespace AutoRemediator

def generateActions (signature : FailureSignature) : List (RemediationAction σ) :=
  match signature.failureClass with
  | .transient =>
      [{ actionType := .backoff, description := "Retry with exponential backoff", maxAttempts := 3,
         cooldownSeconds := 2 },
       { actionType := .retry, description := "Simple retry after cooldown", maxAttempts := 1,
         cooldownSeconds := 5 }]
  | .state =>
      [{ actionType := .rollback, description := "Rollback to previous valid state",
         maxAttempts := 1 },
       { actionType := .reset, description := "Reset state machine to initial state",
         maxAttempts := 1 }]
  | .resource =>
      [{ actionType := .cleanup, description := "Run cache eviction and garbage collection" },
       { actionType := .reset, description := "Reset resource limits to defaults" }]
  | .validation =>
      [{ actionType := .retry, description := "Retry with corrected input", maxAttempts := 2 }]
  | .dependency =>
      [{ actionType := .backoff, description := "Backoff and retry dependency call",
         maxAttempts := 3, cooldownSeconds := 5 },
       { actionType := .escalate,
         description := "Escalate to operator if dependency remains down" }]
  | .config =>
      [{ actionType := .reconfigure, description := "Reload configuration from defaults" },
       { actionType := .escalate, description := "Escalate config issue to operator" }]
  | .timeout | .unknown =>
      [{ actionType := .escalate, description := "Unknown failure — escalate to operator" }]

def estimateTimeout (signature : FailureSignature) : Rat :=
  match signature.failureClass with
  | .transient => 30
  | .state => 15
  | .resource => 60
  | .validation => 10
  | .dependency => 45
  | .config => 10
  | .timeout | .unknown => 30

def createPlan (s : AutoRemediator) (best : Option (FailureSignature × Rat)) :
    Option (RemediationPlan σ) × AutoRemediator :=
  match best with
  | none => (none, s)
  | some (signature, confidence) =>
      (some
        { signatureName := signature.name
          failureClass := signature.failureClass
          confidence := confidence
          actions := generateActions signature
          autoExecute := decide (1 / 2 ≤ confidence) &&
            (signature.failureClass = .transient || signature.failureClass = .timeout)
          timeoutSeconds := estimateTimeout signature },
      { s with history := Function.update s.history signature.name (s.history signature.name + 1) })

/-- The loop over the actions, with the status it leaves. -/
def tryActions : List (RemediationAction σ) → σ → AutoRemediationStatus × List (String × Bool) × σ
  | [], w => (.running, [], w)
  | a :: rest, w =>
      if a.actionType = .escalate then (.escalated, [], w)
      else
        let (success, w) := a.execute w
        if success then (.running, [(a.description, success)], w)
        else
          let (status, results, w) := tryActions rest w
          (status, (a.description, success) :: results, w)

def inCooldown (s : AutoRemediator) (name : String) (now : Rat) : Bool :=
  match s.cooldowns name with
  | none => false
  | some expiry => decide (now < expiry)

def setCooldown (s : AutoRemediator) (name : String) (status : AutoRemediationStatus) (now : Rat) :
    AutoRemediator :=
  match status with
  | .success => { s with cooldowns := Function.update s.cooldowns name (some (now + 300)) }
  | .failed => { s with cooldowns := Function.update s.cooldowns name (some (now + 60)) }
  | .pending | .running | .skipped | .escalated => s

def skip (s : AutoRemediator) (plan : RemediationPlan σ) (clock : Clock) (error : String) :
    RemediationResult × AutoRemediator :=
  let result :=
    { planName := plan.signatureName
      status := .skipped
      startedAt := some clock.started
      error := some error }
  (result, { s with results := s.results ++ [result] })

def execute (s : AutoRemediator) (plan : RemediationPlan σ) (w : σ) (clock : Clock) :
    (RemediationResult × AutoRemediator) × σ :=
  if s.inCooldown plan.signatureName clock.checked then (s.skip plan clock "In cooldown period", w)
  else if !plan.autoExecute then (s.skip plan clock "Manual approval required", w)
  else
    let (_, actionResults, w) := tryActions plan.actions w
    let status := if actionResults.any fun r => r.2 then .success else .failed
    let result :=
      { planName := plan.signatureName
        status := status
        actionResults := actionResults
        startedAt := some clock.started
        completedAt := some clock.completed
        durationSeconds := clock.completed - clock.started }
    let s := s.setCooldown plan.signatureName status clock.cooled
    ((result, { s with results := s.results ++ [result] }), w)

/-- The two guards of execute let the plan through. -/
structure AutoExecutable (s : AutoRemediator) (plan : RemediationPlan σ) (clock : Clock) : Prop where
  auto : plan.autoExecute = true
  ready : s.inCooldown plan.signatureName clock.checked = false

/-- The actions are tried in order, up to a success or an escalation; the last value says whether
an escalation is reached. -/
inductive Tries : List (RemediationAction σ) → σ → List (String × Bool) → Bool → Prop
  | exhausted {w : σ} : Tries [] w [] false
  | escalates {a : RemediationAction σ} {rest : List (RemediationAction σ)} {w : σ}
      (htype : a.actionType = .escalate) : Tries (a :: rest) w [] true
  | succeeds {a : RemediationAction σ} {rest : List (RemediationAction σ)} {w : σ}
      (htype : a.actionType ≠ .escalate) (hrun : (a.execute w).1 = true) :
      Tries (a :: rest) w [(a.description, true)] false
  | fails {a : RemediationAction σ} {rest : List (RemediationAction σ)} {w : σ}
      {results : List (String × Bool)} {reached : Bool}
      (htype : a.actionType ≠ .escalate) (hrun : (a.execute w).1 = false)
      (hrest : Tries rest (a.execute w).2 results reached) :
      Tries (a :: rest) w ((a.description, false) :: results) reached

/-- What the result and the cooldown say about the actions that were tried. -/
structure Verdict (plan : RemediationPlan σ) (w : σ) (clock : Clock) (result : RemediationResult)
    (after : AutoRemediator) (reached : Bool) : Prop where
  tries : Tries plan.actions w result.actionResults reached
  success : result.status = .success ↔ ∃ r ∈ result.actionResults, r.2 = true
  escalated : result.status = .escalated ↔ reached = true
  failed : result.status = .failed ↔
    (¬∃ r ∈ result.actionResults, r.2 = true) ∧ reached = false
  cooldown : after.inCooldown plan.signatureName clock.completed = true ↔
    result.status = .success ∨ result.status = .failed

/-- What the actions leave behind when one after the other is run. -/
def leave (w : σ) (actions : List (RemediationAction σ)) : σ :=
  actions.foldl (fun w a => (a.execute w).2) w

/-- Every escalation stands behind an action that succeeds. -/
def Averted (actions : List (RemediationAction σ)) (w : σ) : Prop :=
  ∀ before a after, actions = before ++ a :: after → a.actionType = .escalate →
    ∃ front b rest, before = front ++ b :: rest ∧ (b.execute (leave w front)).1 = true

variable {s : AutoRemediator} {plan : RemediationPlan σ} {a : RemediationAction σ}
  {actions : List (RemediationAction σ)} {w : σ} {clock : Clock} {results : List (String × Bool)}
  {reached : Bool}

theorem averted_cons : Averted (a :: actions) w ↔
    a.actionType ≠ .escalate ∧ ((a.execute w).1 = true ∨ Averted actions (a.execute w).2) := by
  constructor
  · intro h
    refine ⟨fun htype => ?_, ?_⟩
    · obtain ⟨front, b, rest, hsplit, -⟩ := h [] a actions rfl htype
      cases front with
      | nil => cases hsplit
      | cons _ _ => cases hsplit
    · by_cases hrun : (a.execute w).1 = true
      · exact .inl hrun
      · refine .inr fun before b after hsplit htype => ?_
        obtain ⟨front, c, rest, hbefore, hsuccess⟩ :=
          h (a :: before) b after (by rw [hsplit, List.cons_append]) htype
        cases front with
        | nil =>
            obtain ⟨rfl, -⟩ := List.cons.inj hbefore
            exact absurd hsuccess hrun
        | cons d front =>
            obtain ⟨rfl, htail⟩ := List.cons.inj hbefore
            exact ⟨front, c, rest, htail, hsuccess⟩
  · rintro ⟨hnot, hrest⟩ before b after hsplit htype
    cases before with
    | nil =>
        obtain ⟨rfl, -⟩ := List.cons.inj hsplit
        exact absurd htype hnot
    | cons d before =>
        obtain ⟨rfl, htail⟩ := List.cons.inj hsplit
        rcases hrest with hrun | hrest
        · exact ⟨[], a, before, rfl, hrun⟩
        · obtain ⟨front, c, rest, hbefore, hsuccess⟩ := hrest before b after htail htype
          exact ⟨a :: front, c, rest, by rw [hbefore, List.cons_append], hsuccess⟩

theorem averted_iff : Averted actions w ↔ (tryActions actions w).1 ≠ .escalated := by
  induction actions generalizing w with
  | nil =>
      refine iff_of_true (fun before a after hsplit => ?_) (by simp [tryActions])
      cases before with
      | nil => cases hsplit
      | cons _ _ => cases hsplit
  | cons a actions ih =>
      rw [averted_cons, tryActions]
      by_cases htype : a.actionType = .escalate
      · simp [htype]
      · by_cases hrun : (a.execute w).1 = true
        · simp [htype, hrun]
        · simp [htype, hrun, ih]

theorem tries_tryActions (actions : List (RemediationAction σ)) (w : σ) : Tries actions w (tryActions actions w).2.1
    (decide ((tryActions actions w).1 = .escalated)) := by
  induction actions generalizing w with
  | nil => exact .exhausted
  | cons a actions ih =>
      rw [tryActions]
      by_cases htype : a.actionType = .escalate
      · rw [if_pos htype]
        exact .escalates htype
      · rw [if_neg htype]
        cases hrun : (a.execute w).1 with
        | true =>
            simp only [hrun]
            exact .succeeds htype hrun
        | false =>
            simp only [hrun, Bool.false_eq_true, if_false]
            exact .fails htype hrun (ih _)

theorem Tries.eq {results' : List (String × Bool)} {reached' : Bool}
    (h : Tries actions w results reached) (h' : Tries actions w results' reached') :
    results = results' ∧ reached = reached' := by
  induction h generalizing results' reached' with
  | exhausted =>
      cases h'
      exact ⟨rfl, rfl⟩
  | escalates htype =>
      cases h' with
      | escalates => exact ⟨rfl, rfl⟩
      | succeeds hnot => exact absurd htype hnot
      | fails hnot => exact absurd htype hnot
  | succeeds htype hrun =>
      cases h' with
      | escalates htype' => exact absurd htype' htype
      | succeeds => exact ⟨rfl, rfl⟩
      | fails _ hrun' => exact absurd hrun (Bool.eq_false_iff.mp hrun')
  | fails htype hrun _ ih =>
      cases h' with
      | escalates htype' => exact absurd htype' htype
      | succeeds _ hrun' => exact absurd hrun' (Bool.eq_false_iff.mp hrun)
      | fails _ _ hrest =>
          obtain ⟨rfl, rfl⟩ := ih hrest
          exact ⟨rfl, rfl⟩

/-- A plan that gets through the guards is always called a success or a failure. -/
theorem execute_eq (h : s.AutoExecutable plan clock) (w : σ) :
    (s.execute plan w clock).1.1.actionResults = (tryActions plan.actions w).2.1 ∧
    (s.execute plan w clock).1.1.status =
      (if (tryActions plan.actions w).2.1.any fun r => r.2 then .success else .failed) ∧
    (s.execute plan w clock).1.2.inCooldown plan.signatureName clock.completed = true := by
  have hle := clock.completed_le
  rw [execute, h.ready, h.auto]
  refine ⟨rfl, rfl, ?_⟩
  simp only [Bool.false_eq_true, if_false, Bool.not_true]
  split
  · simp only [inCooldown, setCooldown, Function.update_self, decide_eq_true_eq]
    linarith
  · simp only [inCooldown, setCooldown, Function.update_self, decide_eq_true_eq]
    linarith

/-- The verdict is right just where every escalation stands behind a success: where one is reached,
the plan is called a failure. -/
theorem verdict_iff (h : s.AutoExecutable plan clock) :
    (∃ reached, Verdict plan w clock (s.execute plan w clock).1.1 (s.execute plan w clock).1.2
      reached) ↔ Averted plan.actions w := by
  obtain ⟨hresults, hstatus, hcooldown⟩ := execute_eq h w
  have htries := tries_tryActions plan.actions w
  rw [averted_iff]
  constructor
  · rintro ⟨reached, hverdict⟩ hescalated
    obtain ⟨-, heq⟩ := hverdict.tries.eq (hresults ▸ htries)
    rw [decide_eq_true hescalated] at heq
    have hcalled := hverdict.escalated.mpr heq
    rw [hstatus] at hcalled
    split at hcalled
    · cases hcalled
    · cases hcalled
  · intro hnot
    rw [decide_eq_false hnot] at htries
    refine ⟨false, hresults.symm ▸ htries, ?_, ?_, ?_, ?_⟩
    · rw [hstatus, hresults, ← List.any_eq_true]
      split
      case isTrue hany => exact iff_of_true rfl hany
      case isFalse hany => exact iff_of_false (by decide) hany
    · rw [hstatus]
      split
      · decide
      · decide
    · rw [hstatus, hresults, ← List.any_eq_true]
      split
      case isTrue hany => exact iff_of_false (by decide) fun hfailed => hfailed.1 hany
      case isFalse hany => exact iff_of_true rfl ⟨hany, rfl⟩
    · rw [hstatus]
      refine iff_of_true hcooldown ?_
      split
      · exact .inl rfl
      · exact .inr rfl

theorem createPlan_timeout {best : FailureSignature × Rat} (hclass : best.1.failureClass = .timeout)
    (hconfidence : 1 / 2 ≤ best.2) (hplan : (s.createPlan (some best)).1 = some plan) :
    plan.autoExecute = true ∧ ∀ w, ¬Averted plan.actions w := by
  obtain rfl := Option.some.inj hplan
  refine ⟨?_, fun w => ?_⟩
  · rw [decide_eq_true hconfidence, hclass]
    rfl
  · rw [generateActions, hclass, averted_cons]
    exact fun h => h.1 rfl

theorem handler_generateActions (signature : FailureSignature) :
    ∀ a ∈ (generateActions signature : List (RemediationAction σ)), a.handler = none := by
  intro a ha
  cases hclass : signature.failureClass with
  | transient | state | resource | dependency | config =>
      simp only [generateActions, hclass, List.mem_cons, List.not_mem_nil, or_false] at ha
      rcases ha with rfl | rfl <;> rfl
  | validation | timeout | unknown =>
      simp only [generateActions, hclass, List.mem_cons, List.not_mem_nil, or_false] at ha
      rw [ha]

theorem not_success_of_handler (h : ∀ a ∈ actions, a.handler = none) :
    ∀ r ∈ (tryActions actions w).2.1, r.2 = false := by
  induction actions generalizing w with
  | nil => exact List.forall_mem_nil _
  | cons a actions ih =>
      obtain ⟨ha, hrest⟩ := List.forall_mem_cons.mp h
      rw [tryActions, RemediationAction.execute, ha]
      split
      · exact List.forall_mem_nil _
      · exact List.forall_mem_cons.mpr ⟨rfl, ih hrest⟩

/-- The actions that are generated have no handler, so that no plan of create_plan succeeds. -/
theorem status_createPlan {s' : AutoRemediator} {best : FailureSignature × Rat}
    (hplan : (s.createPlan (some best)).1 = some plan) (h : s'.AutoExecutable plan clock) (w : σ) :
    (s'.execute plan w clock).1.1.status = .failed := by
  obtain ⟨-, hstatus, -⟩ := execute_eq h w
  obtain rfl := Option.some.inj hplan
  rw [hstatus, if_neg]
  rw [Bool.not_eq_true, List.any_eq_false]
  intro r hr
  rw [Bool.not_eq_true]
  exact not_success_of_handler (handler_generateActions best.1) r hr

theorem verdict_retry :
    let plan : RemediationPlan Unit :=
      { signatureName := "dependency_down"
        failureClass := .dependency
        confidence := 1
        actions :=
          [{ actionType := .backoff
             description := "Backoff and retry dependency call"
             handler := some fun w => (.returns true, w) },
           { actionType := .escalate
             description := "Escalate to operator if dependency remains down" }]
        autoExecute := true }
    let clock : Clock := ⟨0, 0, 1, 1, le_refl 0, zero_le_one, le_refl 1⟩
    ∃ reached, Verdict plan () clock (execute {} plan () clock).1.1 (execute {} plan () clock).1.2
      reached :=
  (verdict_iff ⟨rfl, rfl⟩).mpr (averted_cons.mpr ⟨by decide, .inl rfl⟩)

/-- The plan for a timeout is executed by itself and does nothing but escalate. -/
theorem not_verdict_timeout :
    ¬∀ (s : AutoRemediator) (plan : RemediationPlan Unit) (clock : Clock),
      s.AutoExecutable plan clock → ∃ reached, Verdict plan () clock
        (s.execute plan () clock).1.1 (s.execute plan () clock).1.2 reached := by
  intro h
  obtain ⟨plan, hplan⟩ : ∃ plan : RemediationPlan Unit,
      (createPlan {} (some (⟨"hitl_user_timeout", .timeout⟩, 1))).1 = some plan := ⟨_, rfl⟩
  obtain ⟨hauto, hnot⟩ := createPlan_timeout rfl (by norm_num) hplan
  have hready : AutoExecutable {} plan ⟨0, 0, 1, 1, le_refl 0, zero_le_one, le_refl 1⟩ := ⟨hauto, rfl⟩
  exact hnot () ((verdict_iff hready).mp (h {} plan _ hready))

end AutoRemediator

/-! What an error message is known by. -/

open Lib.Rounding Lib.Text

/-- A signature with the texts that are looked for in a message. -/
structure FailurePattern where
  signature : FailureSignature
  matchPatterns : List String
  deriving DecidableEq, Repr

def createDefaultPatterns : List FailurePattern :=
  [⟨⟨"connection_timeout", .transient⟩,
      ["timeout", "connection refused", "connection reset", "network unreachable"]⟩,
    ⟨⟨"rate_limit", .transient⟩, ["rate limit", "too many requests", "429", "throttled"]⟩,
    ⟨⟨"state_invalid", .state⟩,
      ["invalid state", "state not found", "transition not allowed", "illegal state"]⟩,
    ⟨⟨"state_machine_stuck", .state⟩,
      ["stuck in loop", "max iterations", "infinite loop", "timeout in state"]⟩,
    ⟨⟨"memory_pressure", .resource⟩, ["out of memory", "memory error", "cannot allocate", "OOM"]⟩,
    ⟨⟨"disk_full", .resource⟩, ["disk full", "no space left", "disk quota", "write failed"]⟩,
    ⟨⟨"validation_failed", .validation⟩,
      ["validation failed", "invalid format", "schema error", "validation error"]⟩,
    ⟨⟨"dependency_down", .dependency⟩,
      ["service unavailable", "503", "dependency failed", "upstream"]⟩,
    ⟨⟨"config_error", .config⟩,
      ["config error", "invalid config", "configuration error", "missing config"]⟩,
    ⟨⟨"hitl_user_timeout", .timeout⟩,
      ["hitl timeout", "awaiting_input", "pause state", "user timeout"]⟩,
    ⟨⟨"hitl_repeated_rejection", .state⟩,
      ["repeated rejection", "changes_requested", "draft_review → drafting", "re-entry loop"]⟩,
    ⟨⟨"hitl_drift_escalation", .validation⟩,
      ["drift_count >=", "drift escalation", "excessive drift", "drift threshold"]⟩,
    ⟨⟨"hitl_chain_loop", .state⟩,
      ["hitl loop", "chain loop guard", "max hitl steps", "HITL loop limit"]⟩]

namespace FailureMatcher

/-- The lower case of ASCII letters. -/
def lower (s : String) : List Char := s.toList.map Char.toLower

def matchingPatterns (p : FailurePattern) (errorMessage : String) : List String :=
  p.matchPatterns.filter fun m => contains (lower m) (lower errorMessage)

/-- A pattern of which one half is found is as sure as it can be. -/
def confidence (matching total : Nat) : Rat := roundTo 2 (min 1 ((matching : Rat) / total * 2))

def matchAll (patterns : List FailurePattern) (errorMessage : String) :
    List (FailureSignature × Rat) :=
  (patterns.filterMap fun p =>
    let matching := matchingPatterns p errorMessage
    if matching = [] then none
    else some (p.signature, confidence matching.length p.matchPatterns.length)).insertionSort
      fun a b => b.2 ≤ a.2

def bestMatch (patterns : List FailurePattern) (errorMessage : String) :
    Option (FailureSignature × Rat) :=
  (matchAll patterns errorMessage).head?

end FailureMatcher

end Prodinamik.Remediation
