import Mathlib.Algebra.Order.Ring.Rat
import Mathlib.Data.String.Basic

namespace Prodinamik.Budget

inductive DegradationLevel
  | full
  | degraded
  | survival
  deriving DecidableEq, Repr

structure HealthCheckResult where
  name : String
  passed : Bool
  detail : String := ""
  metric : Rat := 0
  threshold : Rat := 0
  deriving DecidableEq, Repr

structure DegradationEvent where
  timestamp : String
  fromLevel : DegradationLevel
  toLevel : DegradationLevel
  reason : String
  checks : List (String × Bool)
  deriving DecidableEq, Repr

structure DegradationManager where
  currentLevel : DegradationLevel := .full
  previousLevel : DegradationLevel := .full
  disabledFeatures : List String := []
  degradationHistory : List DegradationEvent := []
  checkCount : Nat := 0
  deriving DecidableEq, Repr

/-- What shutil.disk_usage returns. -/
structure DiskUsage where
  used : Nat
  total : Nat
  nonempty : 0 < total

namespace DiskUsage

def pct (u : DiskUsage) : Rat := u.used / u.total * 100

end DiskUsage

/-- The keys of the engine's state that are read, with their defaults. -/
structure EngineState where
  consecutiveLlmFailures : Int := 0
  consecutiveAdapterFailures : Int := 0
  budgetHardLimitReached : Bool := false
  deriving DecidableEq, Repr

namespace DegradationManager

def diskUsageMaxPct : Rat := 95

def maxConsecutiveFailures : Int := 3

-- how a share is shown, with one decimal
variable (tenths : Rat → String)

/-- A disk that cannot be read, with the text of its OSError, passes. -/
def checkDiskUsage : Except String DiskUsage → HealthCheckResult
  | .ok usage =>
      { name := "disk_usage"
        passed := usage.pct < diskUsageMaxPct
        detail := tenths usage.pct ++ "% used"
        metric := usage.pct
        threshold := diskUsageMaxPct }
  | .error e => { name := "disk_usage", passed := true, detail := "Cannot check: " ++ e }

def checkFailures (name : String) (failures : Int) : HealthCheckResult where
  name := name
  passed := failures < maxConsecutiveFailures
  detail := toString failures ++ " consecutive failures"
  metric := failures
  threshold := maxConsecutiveFailures

def checkLlmApi (state : EngineState) : HealthCheckResult :=
  checkFailures "llm_api" state.consecutiveLlmFailures

def checkRemoteAdapters (state : EngineState) : HealthCheckResult :=
  checkFailures "remote_adapters" state.consecutiveAdapterFailures

def checkBudget (state : EngineState) : HealthCheckResult where
  name := "budget"
  passed := !state.budgetHardLimitReached
  detail := if state.budgetHardLimitReached then "Hard limit reached" else "OK"

def checkMemory : HealthCheckResult where
  name := "memory"
  passed := true
  detail := "OK"

def checkHealth (disk : Except String DiskUsage) (state : EngineState) : List HealthCheckResult :=
  [checkDiskUsage tenths disk, checkLlmApi state, checkRemoteAdapters state, checkBudget state,
    checkMemory]

def featuresOff : DegradationLevel → List String
  | .degraded => ["t2_validators", "t3_validators", "remote_adapters"]
  | .survival =>
      ["t1_validators", "t2_validators", "t3_validators", "all_adapters", "event_store_write"]
  | .full => []

/-- _transition_to -/
def transitionTo (d : DegradationManager) (newLevel : DegradationLevel)
    (failedChecks : List HealthCheckResult) (timestamp : String) : DegradationManager where
  currentLevel := newLevel
  previousLevel := d.currentLevel
  disabledFeatures := featuresOff newLevel
  degradationHistory := d.degradationHistory ++
    [{ timestamp := timestamp
       fromLevel := d.currentLevel
       toLevel := newLevel
       reason := "; ".intercalate (failedChecks.map fun c => c.name ++ ": " ++ c.detail)
       checks := failedChecks.map fun c => (c.name, c.passed) }]
  checkCount := d.checkCount

/-- The level that the failed checks lead to. -/
def nextLevel (level : DegradationLevel) (failed : List HealthCheckResult) : DegradationLevel :=
  let fails (names : List String) : Bool := failed.any fun c => c.name ∈ names
  let criticalFails := failed.filter fun c => c.metric ≥ c.threshold
  match level with
  | .full =>
      if fails ["llm_api", "remote_adapters"] then .degraded
      else if criticalFails ≠ [] then .degraded
      else .full
  | .degraded =>
      if fails ["disk_usage"] then .survival
      else if fails ["budget"] then .survival
      else if failed = [] then .full
      else .degraded
  | .survival => .survival

def evaluate (d : DegradationManager) (disk : Except String DiskUsage) (state : EngineState)
    (timestamp : String) : DegradationManager :=
  let failed := (checkHealth tenths disk state).filter fun c => !c.passed
  let d' := { d with checkCount := d.checkCount + 1 }
  let newLevel := nextLevel d.currentLevel failed
  if newLevel ≠ d.currentLevel then d'.transitionTo newLevel failed timestamp else d'

/-- The disk check fails. -/
def DiskFull (disk : Except String DiskUsage) : Prop :=
  ∃ usage, disk = .ok usage ∧ diskUsageMaxPct ≤ usage.pct

/-- A level further down than another. -/
def Below (level level' : DegradationLevel) : Prop :=
  (level' = .full ∧ level ≠ .full) ∨ (level' = .degraded ∧ level = .survival)

instance (level level' : DegradationLevel) : Decidable (Below level level') :=
  inferInstanceAs (Decidable (_ ∨ _))

theorem checkDiskUsage_name (disk : Except String DiskUsage) :
    (checkDiskUsage tenths disk).name = "disk_usage" := by
  cases disk <;> rfl

theorem checkDiskUsage_failed {disk : Except String DiskUsage} :
    (checkDiskUsage tenths disk).passed = false ↔ DiskFull disk := by
  cases disk with
  | error e =>
      refine iff_of_false Bool.noConfusion ?_
      rintro ⟨usage, h, -⟩
      cases h
  | ok usage =>
      rw [checkDiskUsage, decide_eq_false_iff_not, not_lt]
      constructor
      · intro h
        exact ⟨usage, rfl, h⟩
      · rintro ⟨_, h, hle⟩
        cases h
        exact hle

/-- A disk that is too full is a critical fail. -/
theorem checkDiskUsage_critical {disk : Except String DiskUsage} (h : DiskFull disk) :
    (checkDiskUsage tenths disk).threshold ≤ (checkDiskUsage tenths disk).metric := by
  obtain ⟨usage, rfl, hle⟩ := h
  exact hle

/-- None of the checks fails. -/
structure Healthy (disk : Except String DiskUsage) (state : EngineState) : Prop where
  disk : ¬ DiskFull disk
  llm : state.consecutiveLlmFailures < maxConsecutiveFailures
  adapters : state.consecutiveAdapterFailures < maxConsecutiveFailures
  budget : state.budgetHardLimitReached = false

variable {tenths} {disk : Except String DiskUsage} {state : EngineState}

theorem failed_eq_nil : ((checkHealth tenths disk state).filter fun c => !c.passed) = [] ↔
    Healthy disk state := by
  rw [List.filter_eq_nil_iff]
  simp only [checkHealth, List.forall_mem_cons, Bool.not_eq_true', Bool.not_eq_false]
  constructor
  · rintro ⟨hdisk, hllm, hadapters, hbudget, -⟩
    refine ⟨fun hfull => ?_, of_decide_eq_true hllm, of_decide_eq_true hadapters, ?_⟩
    · rw [(checkDiskUsage_failed tenths).mpr hfull] at hdisk
      cases hdisk
    · exact (Bool.not_eq_true' _).mp hbudget
  · intro h
    refine ⟨?_, decide_eq_true h.llm, decide_eq_true h.adapters, ?_, rfl,
      fun _ hc => absurd hc List.not_mem_nil⟩
    · exact Bool.eq_true_of_not_eq_false (mt (checkDiskUsage_failed tenths).mp h.disk)
    · exact (Bool.not_eq_true' _).mpr h.budget

/-- A check that fails is critical or one of the two that are asked for by name. -/
theorem failed_cases {c : HealthCheckResult}
    (hc : c ∈ (checkHealth tenths disk state).filter fun c => !c.passed) :
    c.name ∈ ["llm_api", "remote_adapters"] ∨ c.threshold ≤ c.metric := by
  obtain ⟨hmem, hpassed⟩ := List.mem_filter.mp hc
  rw [Bool.not_eq_true'] at hpassed
  simp only [checkHealth, List.mem_cons, List.not_mem_nil, or_false] at hmem
  obtain rfl | rfl | rfl | rfl | rfl := hmem
  · exact .inr (checkDiskUsage_critical tenths ((checkDiskUsage_failed tenths).mp hpassed))
  · exact .inl List.mem_cons_self
  · exact .inl (List.mem_cons_of_mem _ List.mem_cons_self)
  · exact .inr le_rfl
  · cases hpassed

theorem any_failed {name : String} : (((checkHealth tenths disk state).filter fun c => !c.passed).any
    fun c => c.name ∈ [name]) = true ↔
      ∃ c ∈ checkHealth tenths disk state, c.passed = false ∧ c.name = name := by
  rw [List.any_eq_true]
  constructor
  · rintro ⟨c, hc, hname⟩
    obtain ⟨hmem, hpassed⟩ := List.mem_filter.mp hc
    exact ⟨c, hmem, (Bool.not_eq_true' _).mp hpassed,
      List.mem_singleton.mp (of_decide_eq_true hname)⟩
  · rintro ⟨c, hmem, hpassed, hname⟩
    exact ⟨c, List.mem_filter.mpr ⟨hmem, (Bool.not_eq_true' _).mpr hpassed⟩,
      decide_eq_true (List.mem_singleton.mpr hname)⟩

theorem diskUsage_failed : (((checkHealth tenths disk state).filter fun c => !c.passed).any
    fun c => c.name ∈ ["disk_usage"]) = true ↔ DiskFull disk := by
  rw [any_failed, ← checkDiskUsage_failed tenths]
  constructor
  · rintro ⟨c, hmem, hpassed, hname⟩
    simp only [checkHealth, List.mem_cons, List.not_mem_nil, or_false] at hmem
    obtain rfl | rfl | rfl | rfl | rfl := hmem
    · exact hpassed
    · exact absurd (show "llm_api" = "disk_usage" from hname) (by decide)
    · exact absurd (show "remote_adapters" = "disk_usage" from hname) (by decide)
    · exact absurd (show "budget" = "disk_usage" from hname) (by decide)
    · cases hpassed
  · intro hpassed
    exact ⟨_, List.mem_cons_self, hpassed, checkDiskUsage_name tenths disk⟩

theorem budget_failed : (((checkHealth tenths disk state).filter fun c => !c.passed).any
    fun c => c.name ∈ ["budget"]) = true ↔ state.budgetHardLimitReached = true := by
  rw [any_failed]
  constructor
  · rintro ⟨c, hmem, hpassed, hname⟩
    simp only [checkHealth, List.mem_cons, List.not_mem_nil, or_false] at hmem
    obtain rfl | rfl | rfl | rfl | rfl := hmem
    · rw [checkDiskUsage_name] at hname
      exact absurd hname (by decide)
    · exact absurd (show "llm_api" = "budget" from hname) (by decide)
    · exact absurd (show "remote_adapters" = "budget" from hname) (by decide)
    · exact (Bool.not_eq_false' _).mp hpassed
    · cases hpassed
  · intro hreached
    exact ⟨checkBudget state, by simp [checkHealth], (Bool.not_eq_false' _).mpr hreached, rfl⟩

/-- The level that an evaluation leads to. -/
theorem evaluate_level (d : DegradationManager) (timestamp : String) :
    (d.evaluate tenths disk state timestamp).currentLevel = nextLevel d.currentLevel
      ((checkHealth tenths disk state).filter fun c => !c.passed) := by
  simp only [evaluate]
  split
  case isTrue => rfl
  case isFalse h => exact (not_not.mp h).symm

theorem nextLevel_full : nextLevel .full ((checkHealth tenths disk state).filter fun c => !c.passed) =
    .full ↔ Healthy disk state := by
  rw [← @failed_eq_nil tenths disk state]
  constructor
  · intro h
    rw [List.eq_nil_iff_forall_not_mem]
    intro c hc
    simp only [nextLevel] at h
    obtain hname | hcritical := failed_cases hc
    · rw [if_pos (List.any_eq_true.mpr ⟨c, hc, decide_eq_true hname⟩)] at h
      cases h
    · split at h
      · cases h
      · rw [if_pos (List.ne_nil_of_mem (List.mem_filter.mpr ⟨hc, decide_eq_true hcritical⟩))] at h
        cases h
  · intro h
    rw [h]
    rfl

theorem nextLevel_degraded :
    let next := nextLevel .degraded ((checkHealth tenths disk state).filter fun c => !c.passed)
    (next = .survival ↔ DiskFull disk ∨ state.budgetHardLimitReached = true) ∧
      (next = .full ↔ Healthy disk state) := by
  simp only [nextLevel]
  by_cases hdisk : DiskFull disk
  · rw [if_pos (diskUsage_failed.mpr hdisk)]
    exact ⟨iff_of_true rfl (.inl hdisk),
      iff_of_false DegradationLevel.noConfusion fun h => h.disk hdisk⟩
  · rw [if_neg (mt diskUsage_failed.mp hdisk)]
    cases hbudget : state.budgetHardLimitReached with
    | true =>
        rw [if_pos (budget_failed.mpr hbudget)]
        refine ⟨iff_of_true rfl (.inr rfl), iff_of_false DegradationLevel.noConfusion fun h => ?_⟩
        rw [h.budget] at hbudget
        cases hbudget
    | false =>
        rw [if_neg (mt budget_failed.mp (by rw [hbudget]; exact Bool.false_ne_true)),
          ← @failed_eq_nil tenths disk state]
        split
        case isTrue h =>
          exact ⟨iff_of_false DegradationLevel.noConfusion (by simp [hdisk]), iff_of_true rfl h⟩
        case isFalse h =>
          exact ⟨iff_of_false DegradationLevel.noConfusion (by simp [hdisk]),
            iff_of_false DegradationLevel.noConfusion h⟩

end DegradationManager

end Prodinamik.Budget
