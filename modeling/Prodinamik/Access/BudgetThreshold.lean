import Mathlib.Algebra.Order.Ring.Rat
import Mathlib.Data.List.Induction
import Mathlib.Tactic.NormNum
import Prodinamik.Access.HumanControl
import Prodinamik.Lib.StableSort
import Prodinamik.Lib.Table

namespace Prodinamik.Access

open Lib

/-- The limits of a budget, with the assertions of their construction. -/
structure BudgetThreshold where
  hourlyUsd : Rat := 10
  dailyUsd : Rat := 50
  weeklyUsd : Rat := 200
  monthlyUsd : Rat := 500
  perTaskUsd : Rat := 2
  softRatio : Rat := 8 / 10
  hourly_pos : 0 < hourlyUsd := by norm_num
  daily_pos : 0 < dailyUsd := by norm_num
  soft_lt : softRatio < 1 := by norm_num

def BudgetThreshold.defaults : BudgetThreshold := {}

/-- A call of record_cost: its entry, and when the level is evaluated after it. -/
structure RecordCost where
  entry : CostEntry
  now : Rat

def CostEntry.spend (e : CostEntry) (tc : TaskCostRecord) : TaskCostRecord :=
  { tc with
    costUsd := tc.costUsd + e.cost
    llmCalls := if e.llmCall then tc.llmCalls + 1 else tc.llmCalls
    toolCalls := if e.toolCall then tc.toolCalls + 1 else tc.toolCalls }

/-- A task without a record gets one behind the others. -/
def CostEntry.charge (e : CostEntry) : List TaskCostRecord → List TaskCostRecord
  | [] => [e.spend { taskId := e.taskId }]
  | tc :: rest => if tc.taskId = e.taskId then e.spend tc :: rest else tc :: e.charge rest

namespace BudgetController

def windowCost (s : BudgetController) (start finish : Rat) : Rat :=
  (s.costs.filter fun e => start ≤ e.timestamp ∧ e.timestamp ≤ finish).foldl
    (fun total e => total + e.cost) 0

def perTask (s : BudgetController) : Rat :=
  ((s.taskCosts.argmax fun tc => tc.costUsd).map fun tc => tc.costUsd).getD 0

/-- The costs of the week and of the month are worked out too, but no branch looks at them. -/
def evaluateLevel (thresholds : BudgetThreshold) (now : Rat) (s : BudgetController) :
    BudgetController :=
  let hourly := s.windowCost (now - 3600) now
  let daily := s.windowCost (now - 86400) now
  if thresholds.hourlyUsd ≤ hourly ∨ thresholds.dailyUsd ≤ daily ∨
      thresholds.perTaskUsd ≤ s.perTask then
    { s with level := .exhausted, paused := true, pauseReason := some "Hard budget limit exceeded" }
  else if thresholds.hourlyUsd * thresholds.softRatio ≤ hourly ∨
      thresholds.dailyUsd * thresholds.softRatio ≤ daily then
    { s with level := .critical }
  else if thresholds.hourlyUsd * thresholds.softRatio * (1 / 2) ≤ hourly then
    { s with level := .warning }
  else
    { s with level := .normal, paused := false, pauseReason := none }

def addEntry (e : CostEntry) (s : BudgetController) : BudgetController :=
  { s with
    costs := s.costs ++ [e]
    taskCosts := e.charge s.taskCosts
    totalCost := s.totalCost + e.cost
    totalLlmCalls := if e.llmCall then s.totalLlmCalls + 1 else s.totalLlmCalls
    totalToolCalls := if e.toolCall then s.totalToolCalls + 1 else s.totalToolCalls }

def recordCost (thresholds : BudgetThreshold) (s : BudgetController) (c : RecordCost) :
    BudgetController :=
  (s.addEntry c.entry).evaluateLevel thresholds c.now

def run (thresholds : BudgetThreshold) (calls : List RecordCost) : BudgetController :=
  calls.foldl (recordCost thresholds) {}

def Stopped (s : BudgetController) : Prop := s.paused = true ∧ s.level = .exhausted

end BudgetController

/-! What has been spent, in terms of the calls. -/

inductive Window
  | hour
  | day
  | week
  | month

def Window.seconds : Window → Rat
  | hour => 3600
  | day => 86400
  | week => 604800
  | month => 2592000

def BudgetThreshold.limit (thresholds : BudgetThreshold) : Window → Rat
  | .hour => thresholds.hourlyUsd
  | .day => thresholds.dailyUsd
  | .week => thresholds.weeklyUsd
  | .month => thresholds.monthlyUsd

def spent (entries : List CostEntry) : Rat := entries.foldl (fun total e => total + e.cost) 0

/-- The times do not decrease from one call to the next, nor within one. -/
structure InOrder (calls : List RecordCost) : Prop where
  within : ∀ c ∈ calls, c.entry.timestamp ≤ c.now
  pairwise : calls.Pairwise fun c c' => c.now ≤ c'.entry.timestamp

section Limits

variable (thresholds : BudgetThreshold) (entries : List CostEntry) (now : Rat)

def WindowReached (w : Window) : Prop :=
  thresholds.limit w ≤ spent (entries.filter fun e => now - w.seconds ≤ e.timestamp)

def TaskReached : Prop :=
  ∃ e ∈ entries, thresholds.perTaskUsd ≤ spent (entries.filter fun e' => e'.taskId = e.taskId)

end Limits

/-! The records of the tasks hold what was spent on them. -/

variable {e : CostEntry} {records : List TaskCostRecord} {entries : List CostEntry}

theorem spent_append (e : CostEntry) : spent (entries ++ [e]) = spent entries + e.cost := by
  rw [spent, List.foldl_append]
  rfl

theorem CostEntry.keys_charge : (e.charge records).map TaskCostRecord.taskId =
    if e.taskId ∈ records.map TaskCostRecord.taskId then records.map TaskCostRecord.taskId
    else records.map TaskCostRecord.taskId ++ [e.taskId] := by
  induction records with
  | nil => rfl
  | cons tc rest ih =>
      rw [charge, List.map_cons]
      by_cases htask : tc.taskId = e.taskId
      · rw [if_pos htask, if_pos (List.mem_cons.mpr (.inl htask.symm)), List.map_cons]
        rfl
      · rw [if_neg htask, List.map_cons, ih]
        by_cases hmem : e.taskId ∈ rest.map TaskCostRecord.taskId
        · rw [if_pos hmem, if_pos (List.mem_cons_of_mem _ hmem)]
        · rw [if_neg hmem, if_neg (List.not_mem_cons_of_ne_of_not_mem (Ne.symm htask) hmem),
            List.cons_append]

theorem CostEntry.find_charge (id : String) :
    (e.charge records).find? (fun tc => tc.taskId = id) =
      if id = e.taskId then
        some (e.spend ((records.find? fun tc => tc.taskId = id).getD { taskId := e.taskId }))
      else records.find? fun tc => tc.taskId = id := by
  induction records with
  | nil =>
      rw [charge]
      by_cases hid : id = e.taskId
      · simp [spend, hid]
      · simp [spend, hid, Ne.symm hid]
  | cons tc rest ih =>
      rw [charge]
      by_cases htask : tc.taskId = e.taskId
      · by_cases hid : id = e.taskId
        · simp [spend, htask, hid]
        · simp [spend, htask, hid, Ne.symm hid]
      · rw [if_neg htask, List.find?_cons, List.find?_cons, ih]
        by_cases hid : id = e.taskId
        · rw [decide_eq_false (hid.symm ▸ htask), if_pos hid]
        · rw [if_neg hid, if_neg hid]

/-- There is one record for each task of the entries, with the total of its costs. -/
structure Totals (entries : List CostEntry) (records : List TaskCostRecord) : Prop where
  nodup : (records.map TaskCostRecord.taskId).Nodup
  find : ∀ id, (records.find? fun tc => tc.taskId = id).map TaskCostRecord.costUsd =
    if id ∈ entries.map CostEntry.taskId then
      some (spent (entries.filter fun e => e.taskId = id))
    else none

theorem Totals.charge (h : Totals entries records) (e : CostEntry) :
    Totals (entries ++ [e]) (e.charge records) := by
  refine ⟨?_, fun id => ?_⟩
  · rw [e.keys_charge]
    split
    case isTrue => exact h.nodup
    case isFalse hmem => exact List.nodup_append.mpr ⟨h.nodup, List.nodup_singleton _, by
      rintro id hid id' hid' rfl
      rw [List.mem_singleton.mp hid'] at hid
      exact hmem hid⟩
  · have hfind := h.find id
    rw [e.find_charge, List.map_append, List.map_singleton, List.filter_append]
    by_cases hid : id = e.taskId
    · have hcost : ((records.find? fun tc => tc.taskId = id).getD { taskId := e.taskId }).costUsd =
          spent (entries.filter fun e => e.taskId = id) := by
        cases hrecord : records.find? fun tc => tc.taskId = id with
        | some tc =>
            rw [hrecord, Option.map_some] at hfind
            split at hfind
            · exact Option.some.inj hfind
            · cases hfind
        | none =>
            rw [hrecord, Option.map_none] at hfind
            split at hfind
            · cases hfind
            · rename_i hmem
              have hnil : entries.filter (fun e => e.taskId = id) = [] :=
                List.filter_eq_nil_iff.mpr fun e' he' heq =>
                  hmem (List.mem_map.mpr ⟨e', he', of_decide_eq_true heq⟩)
              rw [hnil]
              rfl
      have hlast : [e].filter (fun e => decide (e.taskId = id)) = [e] := by simp [hid]
      rw [if_pos hid, if_pos (List.mem_append_right _ (List.mem_singleton.mpr hid)), hlast,
        spent_append, Option.map_some, ← hcost]
      rfl
    · have hlast : [e].filter (fun e => decide (e.taskId = id)) = [] := by simp [Ne.symm hid]
      rw [if_neg hid, hfind, hlast, List.append_nil]
      simp [hid]

theorem Totals.task_reached (h : Totals entries records) (limit : Rat) :
    (∃ tc ∈ records, limit ≤ tc.costUsd) ↔
      ∃ e ∈ entries, limit ≤ spent (entries.filter fun e' => e'.taskId = e.taskId) := by
  constructor
  · rintro ⟨tc, htc, hle⟩
    have hget : (⟨records, h.nodup⟩ : Table TaskCostRecord.taskId).get tc.taskId = some tc :=
      Table.get_eq_some.mpr ⟨htc, rfl⟩
    have hfind := h.find tc.taskId
    rw [show records.find? (fun tc' => tc'.taskId = tc.taskId) = some tc from hget,
      Option.map_some] at hfind
    split at hfind
    case isTrue hmem =>
      obtain ⟨e, he, htask⟩ := List.mem_map.mp hmem
      rw [← htask] at hfind
      exact ⟨e, he, Option.some.inj hfind ▸ hle⟩
    case isFalse => cases hfind
  · rintro ⟨e, he, hle⟩
    have hfind := h.find e.taskId
    rw [if_pos (List.mem_map_of_mem he), Option.map_eq_some_iff] at hfind
    obtain ⟨tc, hsome, hcost⟩ := hfind
    exact ⟨tc, List.mem_of_find?_eq_some hsome, hcost ▸ hle⟩

namespace BudgetController

variable {thresholds : BudgetThreshold} {s : BudgetController} {calls : List RecordCost}

theorem perTask_reached (hne : s.taskCosts ≠ []) (limit : Rat) :
    limit ≤ s.perTask ↔ ∃ tc ∈ s.taskCosts, limit ≤ tc.costUsd := by
  rw [perTask]
  cases hmax : s.taskCosts.argmax fun tc => tc.costUsd with
  | none => exact absurd (List.argmax_eq_none.mp hmax) hne
  | some tc =>
      obtain ⟨hmem, hall⟩ := Argmax.greatest_of_argmax hmax
      refine ⟨fun hle => ⟨tc, hmem, hle⟩, ?_⟩
      rintro ⟨tc', htc', hle⟩
      exact hle.trans (hall tc' htc')

@[simp] theorem costs_evaluateLevel {now : Rat} :
    (s.evaluateLevel thresholds now).costs = s.costs := by
  simp only [evaluateLevel]
  split_ifs <;> rfl

@[simp] theorem taskCosts_evaluateLevel {now : Rat} :
    (s.evaluateLevel thresholds now).taskCosts = s.taskCosts := by
  simp only [evaluateLevel]
  split_ifs <;> rfl

/-- The branches that are not the first leave no level of exhaustion behind. -/
theorem stopped_evaluateLevel {now : Rat} : Stopped (s.evaluateLevel thresholds now) ↔
    thresholds.hourlyUsd ≤ s.windowCost (now - 3600) now ∨
      thresholds.dailyUsd ≤ s.windowCost (now - 86400) now ∨
      thresholds.perTaskUsd ≤ s.perTask := by
  simp only [evaluateLevel]
  split
  case isTrue h => exact iff_of_true ⟨rfl, rfl⟩ h
  case isFalse h =>
    refine iff_of_false ?_ h
    rintro ⟨-, hlevel⟩
    split_ifs at hlevel

theorem run_append (c : RecordCost) :
    run thresholds (calls ++ [c]) = (run thresholds calls).recordCost thresholds c := by
  rw [run, List.foldl_append]
  rfl

theorem costs_run : (run thresholds calls).costs = calls.map RecordCost.entry := by
  induction calls using List.reverseRecOn with
  | nil => rfl
  | append_singleton calls c ih =>
      rw [run_append, recordCost, costs_evaluateLevel, List.map_append, ← ih]
      rfl

theorem totals_run :
    Totals (calls.map RecordCost.entry) (run thresholds calls).taskCosts := by
  induction calls using List.reverseRecOn with
  | nil => exact ⟨List.nodup_nil, fun id => rfl⟩
  | append_singleton calls c ih =>
      rw [run_append, recordCost, taskCosts_evaluateLevel, List.map_append]
      exact ih.charge c.entry

/-- No entry is later than the evaluation that sums it up. -/
theorem windowCost_run {c : RecordCost} (hordered : InOrder (calls ++ [c])) (start : Rat) :
    ((run thresholds calls).addEntry c.entry).windowCost start c.now =
      spent (((calls ++ [c]).map RecordCost.entry).filter fun e => start ≤ e.timestamp) := by
  rw [windowCost, addEntry, costs_run, List.map_append, List.map_singleton, spent]
  congr 1
  refine List.filter_congr fun e he => ?_
  have hle : e.timestamp ≤ c.now := by
    rcases List.mem_append.mp he with he | he
    · obtain ⟨c', hc', rfl⟩ := List.mem_map.mp he
      have hbefore := (List.pairwise_append.mp hordered.pairwise).2.2 c' hc' c
        (List.mem_singleton_self c)
      exact ((hordered.within c' (List.mem_append_left _ hc')).trans hbefore).trans
        (hordered.within c (List.mem_append_right _ (List.mem_singleton_self c)))
    · rw [List.mem_singleton.mp he]
      exact hordered.within c (List.mem_append_right _ (List.mem_singleton_self c))
  simp [hle]

theorem stopped_run {c : RecordCost} (hordered : InOrder (calls ++ [c])) :
    Stopped (run thresholds (calls ++ [c])) ↔
      WindowReached thresholds ((calls ++ [c]).map RecordCost.entry) c.now .hour ∨
      WindowReached thresholds ((calls ++ [c]).map RecordCost.entry) c.now .day ∨
      TaskReached thresholds ((calls ++ [c]).map RecordCost.entry) := by
  have htotals : Totals ((calls ++ [c]).map RecordCost.entry)
      ((run thresholds calls).addEntry c.entry).taskCosts := by
    rw [List.map_append]
    exact totals_run.charge c.entry
  have hne : ((run thresholds calls).addEntry c.entry).taskCosts ≠ [] := by
    intro hnil
    have hfind := htotals.find c.entry.taskId
    rw [hnil, if_pos (List.mem_map_of_mem (List.mem_map_of_mem (List.mem_append_right calls
      (List.mem_singleton_self c))))] at hfind
    cases hfind
  rw [run_append, recordCost, stopped_evaluateLevel, windowCost_run hordered,
    windowCost_run hordered, perTask_reached hne, htotals.task_reached]
  rfl

/-- The controller stops at every limit that is reached just where those of the week and of the
month are never reached alone. -/
theorem stopped_iff {c : RecordCost} (hordered : InOrder (calls ++ [c])) :
    (Stopped (run thresholds (calls ++ [c])) ↔
      (∃ w, WindowReached thresholds ((calls ++ [c]).map RecordCost.entry) c.now w) ∨
        TaskReached thresholds ((calls ++ [c]).map RecordCost.entry)) ↔
    (WindowReached thresholds ((calls ++ [c]).map RecordCost.entry) c.now .week ∨
        WindowReached thresholds ((calls ++ [c]).map RecordCost.entry) c.now .month →
      WindowReached thresholds ((calls ++ [c]).map RecordCost.entry) c.now .hour ∨
        WindowReached thresholds ((calls ++ [c]).map RecordCost.entry) c.now .day ∨
        TaskReached thresholds ((calls ++ [c]).map RecordCost.entry)) := by
  rw [stopped_run hordered]
  constructor
  · rintro h (hweek | hmonth)
    · exact h.mpr (.inl ⟨.week, hweek⟩)
    · exact h.mpr (.inl ⟨.month, hmonth⟩)
  · refine fun h => ⟨?_, ?_⟩
    · rintro (hhour | hday | htask)
      · exact .inl ⟨.hour, hhour⟩
      · exact .inl ⟨.day, hday⟩
      · exact .inr htask
    · rintro (⟨w, hw⟩ | htask)
      · cases w with
        | hour => exact .inl hw
        | day => exact .inr (.inl hw)
        | week => exact h (.inl hw)
        | month => exact h (.inr hw)
      · exact .inr (.inr htask)

theorem stopped_hour : Stopped (run BudgetThreshold.defaults
    [⟨{ taskId := "a", cost := 10, timestamp := 0 }, 0⟩]) := by
  have hordered : InOrder ([] ++ [⟨{ taskId := "a", cost := 10, timestamp := 0 }, 0⟩]) :=
    ⟨List.forall_mem_singleton.mpr le_rfl, List.pairwise_singleton _ _⟩
  have hhour : WindowReached BudgetThreshold.defaults
      [{ taskId := "a", cost := 10, timestamp := 0 }] 0 .hour := by
    rw [WindowReached]
    decide +kernel
  exact ((@stopped_iff BudgetThreshold.defaults [] _ hordered).mpr fun _ => .inl hhour).mpr (.inl ⟨.hour, hhour⟩)

/-- One dollar reaches the limit of a week that allows no more. -/
theorem not_stopped_week :
    ¬∀ (thresholds : BudgetThreshold) (calls : List RecordCost) (c : RecordCost),
      InOrder (calls ++ [c]) → (∀ c' ∈ calls ++ [c], 0 ≤ c'.entry.cost) →
      (Stopped (run thresholds (calls ++ [c])) ↔
        (∃ w, WindowReached thresholds ((calls ++ [c]).map RecordCost.entry) c.now w) ∨
          TaskReached thresholds ((calls ++ [c]).map RecordCost.entry)) := by
  intro h
  have hweek := h { weeklyUsd := 1 } [] ⟨{ taskId := "a", cost := 1, timestamp := 0 }, 0⟩
    ⟨by simp, List.pairwise_singleton _ _⟩ (by simp)
  have hreached : WindowReached { weeklyUsd := 1 }
      [{ taskId := "a", cost := 1, timestamp := 0 }] 0 .week := by
    rw [WindowReached]
    decide +kernel
  have hlevel := (hweek.mpr (.inl ⟨.week, hreached⟩)).2
  revert hlevel
  decide +kernel

end BudgetController

end Prodinamik.Access
