import Prodinamik.Budget.BudgetEnforcer
import Prodinamik.Lib.Run
import Prodinamik.Safety.Monitor

namespace Prodinamik.Safety

open Budget Lib.Run

/-- The parts of the engine that its health checker reads and changes, and the outcomes of the
LLM calls and of the calls of each adapter, the newest first; the engine keeps no outcomes. -/
structure HealthEngine (H : Type) where
  budget : BudgetEnforcer
  degradation : DegradationManager := {}
  safety : RuntimeSafetyMonitor := {}
  eventBus : EventBus H := {}
  llmOutcomes : List Bool := []
  adapterOutcomes : List (String × Bool) := []

inductive EngineCall
  | record (r : Record)
  | llmFailure
  | adapterCall (adapter : String) (ok : Bool)
  | status
  | tick (disk : Except String DiskUsage) (timestamp : String)

/-- The outcome that the record of an LLM call tells. -/
def outcome : Record → List Bool
  | .llm _ _ _ _ _ wasted => [!wasted]
  | _ => []

namespace HealthEngine

variable {H : Type}

/-- __init__ with the budget of the configuration. -/
def init (config : BudgetConfig) : HealthEngine H where
  budget := ({} : BudgetEnforcer).configure config

/-- The engine's state as the health checker collects it. -/
def engineState (s : HealthEngine H) : EngineState where
  consecutiveLlmFailures := s.budget.costTracker.totalLlmCalls
  consecutiveAdapterFailures := 0
  budgetHardLimitReached :=
    (s.budget.limits.find? fun l => l.name = "total_cost").any BudgetLimit.hardExceeded

variable (tenths : Rat → String)

/-- One turn of the loop in _health_checker. -/
def tick (s : HealthEngine H) (disk : Except String DiskUsage) (timestamp : String) :
    HealthEngine H :=
  let degradation := s.degradation.evaluate tenths disk s.engineState timestamp
  let checked := s.safety.checkAll true
    { bus := some s.eventBus, deg := some degradation.currentLevel } timestamp
  { s with
    degradation := degradation
    safety := checked.1
    eventBus := checked.2.context.bus.getD s.eventBus }

def step (s : HealthEngine H) : EngineCall → HealthEngine H
  | .record r =>
      { s with
        budget := { s.budget with costTracker := s.budget.costTracker.record r }
        llmOutcomes := outcome r ++ s.llmOutcomes }
  | .llmFailure => { s with llmOutcomes := false :: s.llmOutcomes }
  | .adapterCall adapter ok => { s with adapterOutcomes := (adapter, ok) :: s.adapterOutcomes }
  | .status => { s with budget := s.budget.status }
  | .tick disk timestamp => s.tick tenths disk timestamp

/-- The last three of some outcomes are failures. -/
def LastThreeFailed (outcomes : List Bool) : Prop := outcomes.take 3 = [false, false, false]

instance : DecidablePred LastThreeFailed := fun outcomes =>
  inferInstanceAs (Decidable (outcomes.take 3 = [false, false, false]))

/-- A real cause for a degradation. -/
inductive Cause (s : HealthEngine H) (disk : Except String DiskUsage) : Prop
  | llm (h : LastThreeFailed s.llmOutcomes)
  | adapter (name : String)
      (h : LastThreeFailed ((s.adapterOutcomes.filter fun o => o.1 = name).map Prod.snd))
  | budget (l : BudgetLimit) (hl : l ∈ s.budget.limits) (hname : l.name = "total_cost")
      (h : l.hardLimit ≤ s.budget.costTracker.totalUsd)
  | disk (h : DegradationManager.DiskFull disk)

/-- A tick moves the level down for a cause only, and up again when there is none. -/
def Faithful (s : HealthEngine H) : EngineCall → Prop
  | .tick disk timestamp =>
      (DegradationManager.Below (s.tick tenths disk timestamp).degradation.currentLevel
        s.degradation.currentLevel → s.Cause disk) ∧
      (s.degradation.currentLevel = .degraded → ¬ s.Cause disk →
        (s.tick tenths disk timestamp).degradation.currentLevel = .full)
  | _ => True

/-- A tick that finds no cause above survival comes before the third LLM call, and the cost that
the budget was last told is below the limit. -/
def Quiet (s : HealthEngine H) : EngineCall → Prop
  | .tick disk _ => s.degradation.currentLevel ≠ .survival → ¬ s.Cause disk →
      s.budget.costTracker.totalLlmCalls < 3 ∧
        ∀ l, (s.budget.limits.find? fun l => l.name = "total_cost") = some l →
          l.current < l.hardLimit
  | _ => True

variable {tenths} {s : HealthEngine H}

theorem budgetHardLimitReached_eq_false : s.engineState.budgetHardLimitReached = false ↔
    ∀ l, (s.budget.limits.find? fun l => l.name = "total_cost") = some l →
      l.current < l.hardLimit := by
  rw [engineState]
  cases (s.budget.limits.find? fun l => l.name = "total_cost") with
  | none => exact iff_of_true rfl fun _ h => absurd h.symm (Option.some_ne_none _)
  | some l =>
      have hstale : (some l).any BudgetLimit.hardExceeded = false ↔ l.current < l.hardLimit :=
        decide_eq_false_iff_not.trans not_le
      rw [hstale]
      exact ⟨fun h _ heq => Option.some.inj heq ▸ h, fun h => h l rfl⟩

/-- Without a cause the checks pass where few calls are recorded and the copied cost is low. -/
theorem healthy_iff {disk : Except String DiskUsage} (hcause : ¬ s.Cause disk) :
    DegradationManager.Healthy disk s.engineState ↔
      s.budget.costTracker.totalLlmCalls < 3 ∧
        ∀ l, (s.budget.limits.find? fun l => l.name = "total_cost") = some l →
          l.current < l.hardLimit := by
  have hcalls : s.engineState.consecutiveLlmFailures < DegradationManager.maxConsecutiveFailures ↔
      s.budget.costTracker.totalLlmCalls < 3 := Int.ofNat_lt
  rw [← budgetHardLimitReached_eq_false, ← hcalls]
  constructor
  · intro h
    exact ⟨h.llm, h.budget⟩
  · rintro ⟨hllm, hbudget⟩
    exact ⟨fun hdisk => hcause (.disk hdisk), hllm, show (0 : Int) < 3 by decide, hbudget⟩

theorem tick_level (disk : Except String DiskUsage) (timestamp : String) :
    (s.tick tenths disk timestamp).degradation.currentLevel =
      DegradationManager.nextLevel s.degradation.currentLevel
        ((DegradationManager.checkHealth tenths disk s.engineState).filter fun c => !c.passed) :=
  DegradationManager.evaluate_level _ _

theorem faithful_iff (c : EngineCall) : s.Faithful tenths c ↔ s.Quiet c := by
  cases c with
  | tick disk timestamp =>
      have hnext : (s.tick tenths disk timestamp).degradation.currentLevel = _ :=
        tick_level disk timestamp
      simp only [Faithful, Quiet, hnext]
      cases s.degradation.currentLevel with
      | full =>
          have hfull := @DegradationManager.nextLevel_full tenths disk s.engineState
          constructor
          · rintro ⟨hdown, -⟩ - hcause
            rw [← healthy_iff hcause, ← hfull]
            by_contra hne
            exact hcause (hdown (.inl ⟨rfl, hne⟩))
          · intro hquiet
            refine ⟨fun hbelow => ?_, fun heq => DegradationLevel.noConfusion heq⟩
            by_contra hcause
            have hsame := hfull.mpr
              ((healthy_iff hcause).mpr (hquiet DegradationLevel.noConfusion hcause))
            obtain ⟨-, hne⟩ | ⟨heq, -⟩ := hbelow
            · exact hne hsame
            · cases heq
      | degraded =>
          obtain ⟨-, hfull⟩ := @DegradationManager.nextLevel_degraded tenths disk s.engineState
          constructor
          · rintro ⟨-, hup⟩ - hcause
            exact (healthy_iff hcause).mp (hfull.mp (hup rfl hcause))
          · intro hquiet
            have hrecovers (hcause : ¬ s.Cause disk) := hfull.mpr
              ((healthy_iff hcause).mpr (hquiet DegradationLevel.noConfusion hcause))
            refine ⟨fun hbelow => ?_, fun _ => hrecovers⟩
            by_contra hcause
            obtain ⟨heq, -⟩ | ⟨-, hdown⟩ := hbelow
            · cases heq
            · cases hdown.symm.trans (hrecovers hcause)
      | survival =>
          refine iff_of_true ⟨fun hbelow => ?_, fun heq => DegradationLevel.noConfusion heq⟩
            fun hne => absurd rfl hne
          obtain ⟨heq, -⟩ | ⟨heq, -⟩ := hbelow <;> cases heq
  | record r => exact Iff.rfl
  | llmFailure => exact Iff.rfl
  | adapterCall adapter ok => exact Iff.rfl
  | status => exact Iff.rfl

/-- The ticks of a run are faithful exactly if those without a cause come before the third LLM
call and find a copied cost below the limit. -/
theorem faithful_run_iff (tenths : Rat → String) (config : BudgetConfig)
    (calls : List EngineCall) :
    Steps (step tenths) (Faithful tenths) (init config : HealthEngine H) calls ↔
      Steps (step tenths) Quiet (init config : HealthEngine H) calls :=
  ⟨fun h => h.imp (fun _ => id) fun _ c => (faithful_iff c).mp,
    fun h => h.imp (fun _ => id) fun _ c => (faithful_iff c).mpr⟩

/-- A successful call of a model that costs nothing. -/
def goodCall : EngineCall := .record (.llm "local" 100 100 "validation" "SlopScanT1" false)

/-- Three successful calls and a tick. -/
theorem not_faithful_run : ¬ ∀ (tenths : Rat → String) (config : BudgetConfig)
    (calls : List EngineCall),
    Steps (step tenths) (Faithful tenths) (init config : HealthEngine String) calls := by
  intro h
  have hlast := (h (fun _ => "") {} ([goodCall, goodCall, goodCall] ++
    [.tick (.error "unreadable") ""])).last_action
  cases hlast.1 (by decide +kernel) with
  | llm hfailed => exact absurd hfailed (by decide +kernel)
  | adapter name hfailed => cases hfailed
  | budget l hl hname hreached =>
      revert l
      decide +kernel
  | disk hfull =>
      obtain ⟨_, heq, -⟩ := hfull
      cases heq

end HealthEngine

end Prodinamik.Safety
