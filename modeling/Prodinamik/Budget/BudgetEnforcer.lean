import Mathlib.Algebra.Order.Ring.Rat
import Mathlib.Data.List.Induction
import Prodinamik.Budget.CostTracker

namespace Prodinamik.Budget

inductive BudgetAction
  | proceed
  | warn
  | slow
  | stop
  deriving DecidableEq, Repr

structure BudgetLimit where
  name : String
  softLimit : Rat
  hardLimit : Rat
  current : Rat := 0
  unit : String := "usd"
  deriving DecidableEq, Repr

namespace BudgetLimit

def softExceeded (l : BudgetLimit) : Bool := l.current ≥ l.softLimit

def hardExceeded (l : BudgetLimit) : Bool := l.current ≥ l.hardLimit

def check (l : BudgetLimit) : BudgetAction :=
  if l.hardExceeded then .stop else if l.softExceeded then .warn else .proceed

end BudgetLimit

/-- The keys of the dict that configure is given. -/
structure BudgetConfig where
  softLimitUsd : Option Rat := none
  hardLimitUsd : Option Rat := none
  maxLlmCallsPerRun : Option Rat := none
  maxStorageMb : Option Rat := none
  deriving DecidableEq, Repr

/-- The limits are a dict in the order of their names' first assignment. -/
structure BudgetEnforcer where
  costTracker : CostTracker := {}
  limits : List BudgetLimit := []
  warningsSent : List String := []
  deriving DecidableEq, Repr

/-- What the tracker has for a limit. -/
def CostTracker.reading (t : CostTracker) (l : BudgetLimit) : Rat :=
  if l.name = "total_cost" then t.totalUsd
  else if l.name = "llm_calls" then t.totalLlmCalls
  else if l.name = "storage" then t.storageBytes
  else l.current

/-- The limits that configure makes: the two limits of a kind have different defaults. -/
def BudgetConfig.limits (config : BudgetConfig) : List BudgetLimit :=
  [{ name := "total_cost"
     softLimit := config.softLimitUsd.getD 1
     hardLimit := config.hardLimitUsd.getD 5
     unit := "usd" },
    { name := "llm_calls"
      softLimit := config.maxLlmCallsPerRun.getD 20
      hardLimit := config.maxLlmCallsPerRun.getD 30 + 10
      unit := "calls" },
    { name := "storage"
      softLimit := config.maxStorageMb.getD 100 * 1024 * 1024
      hardLimit := config.maxStorageMb.getD 200 * 1024 * 1024
      unit := "bytes" }]

namespace BudgetEnforcer

def configure (b : BudgetEnforcer) (config : BudgetConfig) : BudgetEnforcer :=
  { b with limits := config.limits }

/-- The loop of check_validator: the actions, or none where it returns STOP, and the warnings. -/
def checkLoop : List BudgetLimit → List String → Option (List BudgetAction) × List String
  | [], sent => (some [], sent)
  | l :: ls, sent =>
      if l.check = .stop then (none, sent)
      else
        let sent := if l.check = .warn ∧ l.name ∉ sent then sent ++ [l.name] else sent
        let rest := checkLoop ls sent
        (rest.1.map (l.check :: ·), rest.2)

def checkValidator (b : BudgetEnforcer) (tier : Int) : BudgetAction × BudgetEnforcer :=
  let loop := checkLoop b.limits b.warningsSent
  let b' := { b with warningsSent := loop.2 }
  match loop.1 with
  | none => (.stop, b')
  | some actions =>
      let soft := ((b.limits.find? fun l => l.name = "llm_calls").map BudgetLimit.softLimit).getD 100
      (if .stop ∈ actions then .stop
        else if .warn ∈ actions then .warn
        else if .slow ∈ actions then .slow
        else if (b.costTracker.totalLlmCalls : Rat) > soft ∧ (tier = 2 ∨ tier = 3) then .slow
        else .proceed, b')

def updateFromTracker (b : BudgetEnforcer) : BudgetEnforcer :=
  { b with limits := b.limits.map fun l => { l with current := b.costTracker.reading l } }

/-- status shows the limits after it has brought them up to date. -/
def status (b : BudgetEnforcer) : BudgetEnforcer := b.updateFromTracker

end BudgetEnforcer

/-- A call on the tracker or on its enforcer. -/
inductive BudgetCall
  | record (r : Record)
  | checkValidator (name : String) (tier : Int)
  | status
  deriving DecidableEq, Repr

namespace BudgetEnforcer

def step (b : BudgetEnforcer) : BudgetCall → BudgetEnforcer
  | .record r => { b with costTracker := b.costTracker.record r }
  | .checkValidator _ tier => (b.checkValidator tier).2
  | .status => b.status

/-- A new enforcer with its limits, after some calls. -/
def after (config : BudgetConfig) (calls : List BudgetCall) : BudgetEnforcer :=
  calls.foldl step (({} : BudgetEnforcer).configure config)

end BudgetEnforcer

/-- One of the hard limits is reached by what the tracker has. -/
def BudgetConfig.Reached (config : BudgetConfig) (t : CostTracker) : Prop :=
  ∃ l ∈ config.limits, l.hardLimit ≤ t.reading l

/-- The calls up to the last status. -/
def upToStatus (calls : List BudgetCall) : List BudgetCall :=
  (calls.reverse.dropWhile fun c => c ≠ .status).reverse

namespace BudgetEnforcer

theorem stop_of_loop {ls : List BudgetLimit} {sent : List String} :
    (∀ actions ∈ (checkLoop ls sent).1, .stop ∉ actions) ∧
      ((checkLoop ls sent).1 = none ↔ ∃ l ∈ ls, l.hardLimit ≤ l.current) := by
  induction ls generalizing sent with
  | nil =>
      refine ⟨fun actions hactions => ?_, by simp [checkLoop]⟩
      cases hactions
      exact List.not_mem_nil
  | cons l ls ih =>
      rw [checkLoop]
      by_cases hstop : l.check = .stop
      · have hhard : l.hardLimit ≤ l.current := by
          by_contra hlt
          rw [BudgetLimit.check, BudgetLimit.hardExceeded, decide_eq_false hlt,
            if_neg Bool.false_ne_true] at hstop
          split at hstop <;> cases hstop
        rw [if_pos hstop]
        exact ⟨fun _ h => absurd h (Option.not_mem_none _),
          iff_of_true rfl ⟨l, List.mem_cons_self, hhard⟩⟩
      · have hhard : ¬ l.hardLimit ≤ l.current := by
          intro hle
          apply hstop
          rw [BudgetLimit.check, BudgetLimit.hardExceeded, decide_eq_true hle, if_pos rfl]
        rw [if_neg hstop]
        obtain ⟨hnot, hiff⟩ := @ih (if l.check = .warn ∧ l.name ∉ sent then sent ++ [l.name] else sent)
        constructor
        · intro actions hactions
          obtain ⟨rest, hrest, rfl⟩ := Option.mem_map.mp hactions
          rw [List.mem_cons, not_or]
          exact ⟨Ne.symm hstop, hnot rest hrest⟩
        · rw [Option.map_eq_none_iff, hiff, List.exists_mem_cons_iff, or_iff_right hhard]

theorem checkValidator_eq_stop {b : BudgetEnforcer} {tier : Int} :
    (b.checkValidator tier).1 = .stop ↔ ∃ l ∈ b.limits, l.hardLimit ≤ l.current := by
  obtain ⟨hnot, hiff⟩ := @stop_of_loop b.limits b.warningsSent
  rw [← hiff, checkValidator]
  cases hloop : (checkLoop b.limits b.warningsSent).1 with
  | none => exact iff_of_true rfl rfl
  | some actions =>
      refine iff_of_false ?_ (Option.some_ne_none _)
      simp only [if_neg (hnot actions hloop)]
      split
      · exact BudgetAction.noConfusion
      · split
        · exact BudgetAction.noConfusion
        · split <;> exact BudgetAction.noConfusion

@[simp]
theorem checkValidator_keeps (b : BudgetEnforcer) (tier : Int) :
    (b.checkValidator tier).2.limits = b.limits ∧
      (b.checkValidator tier).2.costTracker = b.costTracker := by
  rw [checkValidator]
  cases (checkLoop b.limits b.warningsSent).1 <;> exact ⟨rfl, rfl⟩

theorem after_append (config : BudgetConfig) (calls : List BudgetCall) (c : BudgetCall) :
    after config (calls ++ [c]) = (after config calls).step c := by
  rw [after, List.foldl_append]
  rfl

theorem upToStatus_append (calls : List BudgetCall) (c : BudgetCall) :
    upToStatus (calls ++ [c]) = if c = .status then calls ++ [c] else upToStatus calls := by
  rw [upToStatus, List.reverse_append, List.reverse_singleton, List.singleton_append]
  by_cases hc : c = .status
  · rw [if_pos hc, List.dropWhile_cons_of_neg (by simpa using hc), List.reverse_cons,
      List.reverse_reverse]
  · rw [if_neg hc, List.dropWhile_cons_of_pos (by simpa using hc)]
    rfl

theorem name_of_mem {config : BudgetConfig} {l : BudgetLimit} (hl : l ∈ config.limits) :
    l.name = "total_cost" ∨ l.name = "llm_calls" ∨ l.name = "storage" := by
  simp only [BudgetConfig.limits, List.mem_cons, List.not_mem_nil, or_false] at hl
  obtain rfl | rfl | rfl := hl <;> simp

/-- The reading of a limit is the tracker's, whatever the limit was last told. -/
theorem reading_current (t : CostTracker) {config : BudgetConfig} {l : BudgetLimit}
    (hl : l ∈ config.limits) (x : Rat) : t.reading { l with current := x } = t.reading l := by
  simp only [CostTracker.reading]
  obtain h | h | h := name_of_mem hl <;> simp [h]

theorem reading_empty {config : BudgetConfig} {l : BudgetLimit} (hl : l ∈ config.limits) :
    CostTracker.reading {} l = l.current := by
  simp only [BudgetConfig.limits, List.mem_cons, List.not_mem_nil, or_false] at hl
  obtain rfl | rfl | rfl := hl
  · change CostTracker.totalUsd {} = 0
    decide +kernel
  · rfl
  · rfl

/-- The limits know what the tracker had at the last status. -/
theorem limits_after (config : BudgetConfig) (calls : List BudgetCall) :
    (after config calls).limits = config.limits.map fun l =>
      { l with current := (after config (upToStatus calls)).costTracker.reading l } := by
  induction calls using List.reverseRecOn with
  | nil =>
      refine (List.map_id _).symm.trans (List.map_congr_left fun l hl => ?_)
      exact congrArg (fun x => { l with current := x }) (reading_empty hl).symm
  | append_singleton calls c ih =>
      rw [after_append, upToStatus_append]
      cases c with
      | record r => exact ih
      | checkValidator name tier => exact (checkValidator_keeps _ tier).1.trans ih
      | status =>
          rw [if_pos rfl, after_append]
          change List.map _ (after config calls).limits = _
          rw [ih, List.map_map]
          refine List.map_congr_left fun l hl => ?_
          exact congrArg (fun x => { l with current := x }) (reading_current _ hl _)

/-- check_validator sees what the tracker had at the last status. -/
theorem checkValidator_after (config : BudgetConfig) (calls : List BudgetCall) (tier : Int) :
    ((after config calls).checkValidator tier).1 = .stop ↔
      config.Reached (after config (upToStatus calls)).costTracker := by
  rw [checkValidator_eq_stop, limits_after]
  constructor
  · rintro ⟨_, hmem, hle⟩
    obtain ⟨l, hl, rfl⟩ := List.mem_map.mp hmem
    exact ⟨l, hl, hle⟩
  · rintro ⟨l, hl, hle⟩
    exact ⟨_, List.mem_map_of_mem hl, hle⟩

end BudgetEnforcer

end Prodinamik.Budget
