import Mathlib.Tactic.IntervalCases
import Prodinamik.Detect.Justified
import Prodinamik.Remediation.AutoRemediator
import Prodinamik.Runs.Engine

namespace Prodinamik.Runs

open Lib Lib.Grouping Detect Detect.DriftPatternCollector Machine Remediation Skills

/-- The engine with the rejection_count that the snapshot has of each run, its remediator
and its drift events. -/
structure HealingEngine where
  engine : AsyncEngine
  rejectionCount : String → Nat := fun _ => 0
  autoRemediationEnabled : Bool := true
  skillEmergenceEnabled : Bool := true
  remediator : AutoRemediator := {}
  collector : DriftPatternCollector := {}
  recorded : Nat := 0

/-- What changes the engine and its disk. Every transition of the engine goes through
_do_transition; the drift event has the time that is given. -/
inductive EngineAct
  | transition (slug toState : String) (overrides : List Override) (t : Moment) (drifted : Int)
  | createRun (profileName title slug : String) (t : Moment)
  | touch (slug : String) (t : Moment)
  | op (op : Op)

def AsyncEngine.stateOf (s : AsyncEngine) (slug : String) : String :=
  match s.disk.getRun slug with
  | .ok (some m) => m.state
  | _ => ""

namespace HealingEngine

def countRejection (s : HealingEngine) (slug : String) : HealingEngine :=
  { s with
    engine :=
      { s.engine with
        disk := s.engine.disk.performAll (updateSnapshot s.engine.disk slug {}) }
    rejectionCount := Function.update s.rejectionCount slug (s.rejectionCount slug + 1) }

/-- A plan of which only what it says is used; it is not executed. -/
def createPlan (s : HealingEngine) (errorMessage : String) :
    Option (RemediationPlan Unit) × HealingEngine :=
  let best := FailureMatcher.bestMatch createDefaultPatterns errorMessage
  ((s.remediator.createPlan best).1,
    { s with remediator := (s.remediator.createPlan best (σ := Unit)).2 })

/-- The runtime state is a new one every time. -/
def checkDrift (s : HealingEngine) (slug toState : String) :
    Option (RemediationPlan Unit) × HealingEngine :=
  match s.engine.disk.getRun slug with
  | .ok (some _) =>
      let rt : RuntimeState := { currentState := toState }
      if 5 ≤ rt.driftCount then
        s.createPlan ("drift escalation: drift_count=" ++ toString rt.driftCount)
      else (none, s)
  | _ => (none, s)

def repeatedRejection : String := "repeated rejection: draft_review → drafting loop"

def checkAutoRemediation (s : HealingEngine) (slug fromState toState : String) :
    Option (RemediationPlan Unit) × HealingEngine :=
  if !s.autoRemediationEnabled then (none, s)
  else if fromState = "draft_review" ∧ toState = "drafting" then
    let s := s.countRejection slug
    if 3 ≤ s.rejectionCount slug then
      match s.createPlan repeatedRejection with
      | (some plan, s) => (some plan, s)
      | (none, s) => s.checkDrift slug toState
    else s.checkDrift slug toState
  else s.checkDrift slug toState

def recordDriftFromRemediation (s : HealingEngine) (slug fromState toState patternName : String)
    (time : Int) : HealingEngine :=
  if !s.skillEmergenceEnabled then s
  else
    { s with
      collector := s.collector.record
        { driftId := slug ++ "-" ++ toState ++ "-" ++ toString s.collector.events.length
          driftType := .validation
          severity := .high
          runId := slug
          state := toState
          timestamp := time
          description := "Auto-remediation triggered: " ++ patternName ++ " (" ++ fromState ++ "→" ++
            toState ++ ")"
          object := s.recorded }
      recorded := s.recorded + 1 }

section Acts

variable (digest : WalEntry → String) (registry : Registry)

def doTransition (s : HealingEngine) (slug toState : String) (overrides : List Override)
    (t : Moment) (drifted : Int) : Except String RunMeta × HealingEngine :=
  match s.engine.doTransition digest registry slug toState overrides t with
  | (.error e, engine) => (.error e, { s with engine := engine })
  | (.ok m, engine) =>
    let fromState := s.engine.stateOf slug
    match { s with engine := engine }.checkAutoRemediation slug fromState toState with
    | (none, s) => (.ok m, s)
    | (some plan, s) =>
        (.ok m, s.recordDriftFromRemediation slug fromState toState plan.signatureName drifted)

def act (s : HealingEngine) : EngineAct → HealingEngine
  | .transition slug toState overrides t drifted =>
      (s.doTransition digest registry slug toState overrides t drifted).2
  | .createRun profileName title slug t =>
      { s with engine := (s.engine.createRun digest registry profileName title slug t).2 }
  | .touch slug t => { s with engine := s.engine.touch slug t }
  | .op op =>
      { s with
        engine := { s.engine with disk := s.engine.disk.performAll (op.writes digest s.engine.disk) } }

/-- The run that an act takes from its review back to drafting. -/
def rejected (s : HealingEngine) : EngineAct → Option String
  | .transition slug toState overrides t _ =>
      match (s.engine.doTransition digest registry slug toState overrides t).1 with
      | .ok _ =>
          if s.engine.stateOf slug = "draft_review" ∧ toState = "drafting" then some slug else none
      | .error _ => none
  | _ => none

/-- An act, with the runs that have been rejected so far, the last one first. -/
def watched (s : HealingEngine × List String) (a : EngineAct) : HealingEngine × List String :=
  (s.1.act digest registry a, (s.1.rejected digest registry a).toList ++ s.2)

end Acts

/-- What check_emergence has to save. -/
def checkEmergence (s : HealingEngine) (host : Host) (title : String → String)
    (percent : Rat → String) (createdAt : String) : List SkillDraft :=
  if !s.skillEmergenceEnabled then []
  else generateSkills title percent (13 / 20) createdAt (detectCandidates host s.collector.events 3)

def escalation : String :=
  "Auto-remediation triggered: hitl_repeated_rejection (draft_review→drafting)"

/-- A drift event that stands for a rejection. -/
structure Escalates (slug : String) (e : DriftEvent) : Prop where
  runId : e.runId = slug
  driftType : e.driftType = .validation
  severity : e.severity = .high
  description : e.description = escalation

/-- The counters count the rejections, and every run has a drift event for each one after
its second. -/
structure Follows (s : HealingEngine) (log : List String) : Prop where
  remediates : s.autoRemediationEnabled = true
  emerges : s.skillEmergenceEnabled = true
  counts : ∀ slug, s.rejectionCount slug = log.count slug
  drifts : ∃ events, s.collector = recordAll {} events ∧
    events.map DriftEvent.runId = (repeats 2 log).reverse ∧ ∀ e ∈ events, Escalates e.runId e

section Steps

variable {digest : WalEntry → String} {registry : Registry} {s : HealingEngine} {slug : String}

theorem bestMatch_repeatedRejection : FailureMatcher.bestMatch createDefaultPatterns
    repeatedRejection = some (⟨"hitl_repeated_rejection", .state⟩, 1) := by
  decide +kernel

theorem checkDrift_eq (toState : String) : s.checkDrift slug toState = (none, s) := by
  rw [checkDrift]
  split
  · rfl
  · rfl

theorem checkAutoRemediation_of_other {fromState toState : String}
    (h : ¬(fromState = "draft_review" ∧ toState = "drafting")) :
    s.checkAutoRemediation slug fromState toState = (none, s) := by
  rw [checkAutoRemediation, if_neg h, checkDrift_eq]
  split <;> rfl

theorem checkAutoRemediation_of_rejection (h : s.autoRemediationEnabled = true) :
    ∃ remediator plan, plan.signatureName = "hitl_repeated_rejection" ∧
      s.checkAutoRemediation slug "draft_review" "drafting" =
        if 2 ≤ s.rejectionCount slug then
          (some plan, { s.countRejection slug with remediator := remediator })
        else (none, s.countRejection slug) := by
  have hcount : (s.countRejection slug).rejectionCount slug = s.rejectionCount slug + 1 :=
    Function.update_self ..
  obtain ⟨plan, remediator, hplan, hname⟩ : ∃ plan remediator,
      (s.countRejection slug).createPlan repeatedRejection =
        (some plan, { s.countRejection slug with remediator := remediator }) ∧
      plan.signatureName = "hitl_repeated_rejection" := by
    rw [createPlan, bestMatch_repeatedRejection]
    exact ⟨_, _, rfl, rfl⟩
  refine ⟨remediator, plan, hname, ?_⟩
  rw [checkAutoRemediation, h, if_neg (by decide), if_pos ⟨rfl, rfl⟩]
  dsimp only
  rw [hcount]
  by_cases htwo : 2 ≤ s.rejectionCount slug
  · rw [if_pos (by omega), if_pos htwo, hplan]
  · rw [if_neg (by omega), if_neg htwo, checkDrift_eq]

/-- What an act does that rejects no run. -/
theorem act_of_not_rejected {a : EngineAct} (h : s.rejected digest registry a = none) :
    ∃ engine, s.act digest registry a = { s with engine := engine } := by
  cases a with
  | createRun profileName title slug t => exact ⟨_, rfl⟩
  | touch slug t => exact ⟨_, rfl⟩
  | op op => exact ⟨_, rfl⟩
  | transition slug toState overrides t drifted =>
      rw [rejected] at h
      rw [act, doTransition]
      rcases hdone : s.engine.doTransition digest registry slug toState overrides t with ⟨result, engine⟩
      rw [hdone] at h
      cases result with
      | error e => exact ⟨engine, rfl⟩
      | ok m =>
          refine ⟨engine, ?_⟩
          have hother : ¬(s.engine.stateOf slug = "draft_review" ∧ toState = "drafting") := by
            intro hrejected
            simp [hrejected] at h
          dsimp only
          rw [checkAutoRemediation_of_other hother]

/-- A rejection is counted, and from the third one on it is recorded as a drift. -/
theorem act_of_rejected (hremediates : s.autoRemediationEnabled = true)
    (hemerges : s.skillEmergenceEnabled = true) {a : EngineAct}
    (h : s.rejected digest registry a = some slug) :
    (s.act digest registry a).autoRemediationEnabled = true ∧
      (s.act digest registry a).skillEmergenceEnabled = true ∧
      (s.act digest registry a).rejectionCount =
        Function.update s.rejectionCount slug (s.rejectionCount slug + 1) ∧
      ∃ e, Escalates slug e ∧ (s.act digest registry a).collector =
        if 2 ≤ s.rejectionCount slug then s.collector.record e else s.collector := by
  cases a with
  | createRun | touch | op => cases h
  | transition slug' toState overrides t drifted =>
      rw [rejected] at h
      rw [act, doTransition]
      rcases hdone : s.engine.doTransition digest registry slug' toState overrides t with ⟨result, engine⟩
      rw [hdone] at h
      cases result with
      | error e => cases h
      | ok m =>
          dsimp only at h ⊢
          split at h
          case isFalse => cases h
          case isTrue hrejected =>
            obtain rfl := Option.some.inj h
            obtain ⟨hfrom, rfl⟩ := hrejected
            obtain ⟨remediator, plan, hname, hcheck⟩ :=
              @checkAutoRemediation_of_rejection { s with engine := engine } slug' hremediates
            rw [hfrom, hcheck]
            by_cases htwo : 2 ≤ s.rejectionCount slug'
            · rw [if_pos htwo]
              dsimp only
              rw [recordDriftFromRemediation, hname]
              simp only [countRejection, hemerges, Bool.not_true, Bool.false_eq_true, if_false]
              exact ⟨hremediates, trivial, trivial, _, ⟨rfl, rfl, rfl, rfl⟩, (if_pos htwo).symm⟩
            · rw [if_neg htwo]
              exact ⟨hremediates, hemerges, rfl, ⟨"", .validation, .high, slug', "", 0, escalation, 0⟩,
                ⟨rfl, rfl, rfl, rfl⟩, (if_neg htwo).symm⟩

theorem Follows.of_fresh (engine : AsyncEngine) : Follows { engine := engine } [] where
  remediates := rfl
  emerges := rfl
  counts _ := rfl
  drifts := ⟨[], rfl, rfl, fun e he => absurd he List.not_mem_nil⟩

theorem Follows.watched {log : List String} (h : Follows s log) (a : EngineAct) :
    Follows (HealingEngine.watched digest registry (s, log) a).1
      (HealingEngine.watched digest registry (s, log) a).2 := by
  rw [HealingEngine.watched]
  cases hrejected : s.rejected digest registry a with
  | none =>
      obtain ⟨engine, hact⟩ := act_of_not_rejected hrejected
      rw [hact]
      exact ⟨h.remediates, h.emerges, h.counts, h.drifts⟩
  | some slug =>
      obtain ⟨hremediates, hemerges, hcount, e, he, hcollector⟩ :=
        act_of_rejected h.remediates h.emerges hrejected
      obtain ⟨events, hevents, hruns, hall⟩ := h.drifts
      refine ⟨hremediates, hemerges, fun slug' => ?_, ?_⟩
      · rw [hcount]
        by_cases hslug : slug' = slug
        · subst hslug
          simp [h.counts]
        · simp [hslug, h.counts, List.count_cons_of_ne (Ne.symm hslug)]
      · rw [hcollector, Option.toList_some, List.singleton_append, repeats, ← h.counts]
        split
        case isFalse => exact ⟨events, hevents, hruns, hall⟩
        case isTrue =>
          refine ⟨events ++ [e], ?_, ?_, ?_⟩
          · rw [recordAll_concat, hevents]
          · rw [List.map_append, hruns, List.reverse_cons, List.map_singleton, he.runId]
          · intro e' he'
            rcases List.mem_append.mp he' with he' | he'
            · exact hall e' he'
            · rw [List.mem_singleton.mp he', he.runId]
              exact he

/-- After any acts, by what one of them does. -/
theorem follows_run (engine : AsyncEngine) (acts : List EngineAct) :
    Follows (acts.foldl (HealingEngine.watched digest registry) ({ engine := engine }, [])).1
      (acts.foldl (HealingEngine.watched digest registry) ({ engine := engine }, [])).2 := by
  induction acts using List.reverseRecOn with
  | nil => exact .of_fresh engine
  | append_singleton acts a ih =>
      rw [List.foldl_append]
      exact ih.watched a

end Steps

/-! What becomes of the drift events. -/

theorem total_eq_sum (xs : List Rat) : total xs = xs.sum := by
  rw [total, List.sum_eq_foldl]

theorem sum_zipWith_replicate (xs : List Rat) (n : Nat) (m y : Rat) :
    (List.zipWith (fun x y' => (x - m) * (y' - y)) xs (List.replicate n y)).sum = 0 := by
  induction xs generalizing n with
  | nil => rfl
  | cons x xs ih =>
      cases n with
      | zero => rfl
      | succ n => simp [List.replicate_succ, ih]

theorem slope_replicate (n : Nat) (y : Rat) : Detect.slope (List.replicate n y) = 0 := by
  rcases Nat.eq_zero_or_pos n with rfl | hn
  · simp [Detect.slope, total]
  · have hmean : mean (List.replicate n y) = y := by
      have hne : (n : Rat) ≠ 0 := by exact_mod_cast hn.ne'
      rw [mean, total_eq_sum, List.sum_replicate, List.length_replicate, nsmul_eq_mul,
        mul_div_cancel_left₀ _ hne]
    rw [Detect.slope, hmean, total_eq_sum, sum_zipWith_replicate, zero_div]

/-- Equal severities have no trend. -/
theorem stable_of_high {events : List DriftEvent} (h : ∀ e ∈ events, e.severity = .high) :
    (analyzeSeverityTrend events).direction = .stable := by
  rw [analyzeSeverityTrend]
  split
  case isTrue => rfl
  case isFalse =>
    have hseverities : (events.drop (events.length - 50)).map (fun e => severityMap e.severity) =
        List.replicate (events.drop (events.length - 50)).length 3 := by
      rw [List.eq_replicate_iff, List.length_map]
      refine ⟨rfl, fun x hx => ?_⟩
      obtain ⟨e, he, rfl⟩ := List.mem_map.mp hx
      rw [h e (List.mem_of_mem_drop he), severityMap]
    dsimp only
    rw [hseverities, slope_replicate, abs_zero, if_pos (by norm_num)]

theorem detectCandidates_of_same (host : Host) {events : List DriftEvent} {key : String} (m : Int)
    (hne : events ≠ []) (h : ∀ e ∈ events, patternKey e = key) : detectCandidates host events m =
      (candidate host (analyzeSeverityTrend events).direction m events).toList := by
  rw [detectCandidates, groupBy_of_forall_eq hne h]
  cases hc : candidate host (analyzeSeverityTrend events).direction m events with
  | none => simp [hc]
  | some c => simp [hc]

theorem le_weight {n r : Nat} {a b c : Rat} (ha : a ≤ min 1 ((n : Rat) / 8))
    (hb : b ≤ min 1 ((r : Rat) / 4)) (hc : c ≤ min 1 ((n : Rat) / (max r 1 : Nat) / 3)) :
    35 * a + 20 * b + 25 * c + 20 ≤ weight n r .stable := by
  rw [weight, trendPenalty]
  linarith

/-- On the average every run has a drift. -/
theorem third_le_density {n r : Nat} (hr : 1 ≤ r) (hrn : r ≤ n) :
    1 / 3 ≤ min 1 ((n : Rat) / (max r 1 : Nat) / 3) := by
  have hpos : (0 : Rat) < r := by exact_mod_cast hr
  have hle : (1 : Rat) ≤ n / r := (one_le_div hpos).mpr (by exact_mod_cast hrn)
  rw [max_eq_left hr]
  refine le_min (by norm_num) ?_
  linarith

theorem half_le_weight {n r : Nat} (hn : 3 ≤ n) (hr : 1 ≤ r) (hrn : r ≤ n) :
    999 / 20 ≤ weight n r .stable := by
  have hnq : (3 : Rat) ≤ n := by exact_mod_cast hn
  have hcount : (3 / 8 : Rat) ≤ min 1 ((n : Rat) / 8) := le_min (by norm_num) (by linarith)
  rcases hr.eq_or_lt' with rfl | hr2
  · have hdensity : (1 : Rat) ≤ min 1 ((n : Rat) / (max 1 1 : Nat) / 3) := by
      refine le_min le_rfl ?_
      norm_num
      linarith
    have hruns : (1 / 4 : Rat) ≤ min 1 (((1 : Nat) : Rat) / 4) := by norm_num
    linarith [le_weight hcount hruns hdensity]
  · have hrq : (2 : Rat) ≤ r := by exact_mod_cast hr2
    have hruns : (1 / 2 : Rat) ≤ min 1 ((r : Rat) / 4) := le_min (by norm_num) (by linarith)
    linarith [le_weight hcount hruns (third_le_density hr hrn)]

theorem ready_le_weight {n r : Nat} (hn : 5 ≤ n) (hr : 1 ≤ r) (hrn : r ≤ n) :
    1299 / 20 ≤ weight n r .stable := by
  have hnq : (5 : Rat) ≤ n := by exact_mod_cast hn
  have hcount : (5 / 8 : Rat) ≤ min 1 ((n : Rat) / 8) := le_min (by norm_num) (by linarith)
  rcases hr.eq_or_lt' with rfl | hr2
  · have hdensity : (1 : Rat) ≤ min 1 ((n : Rat) / (max 1 1 : Nat) / 3) := by
      refine le_min le_rfl ?_
      norm_num
      linarith
    have hruns : (1 / 4 : Rat) ≤ min 1 (((1 : Nat) : Rat) / 4) := by norm_num
    linarith [le_weight hcount hruns hdensity]
  · rcases (Nat.succ_le_of_lt hr2).eq_or_lt' with rfl | hr3
    · have hdensity : (5 / 6 : Rat) ≤ min 1 ((n : Rat) / (max 2 1 : Nat) / 3) := by
        refine le_min (by norm_num) ?_
        norm_num
        linarith
      have hruns : (1 / 2 : Rat) ≤ min 1 (((2 : Nat) : Rat) / 4) := by norm_num
      linarith [le_weight hcount hruns hdensity]
    · have hrq : (3 : Rat) ≤ r := by exact_mod_cast hr3
      have hruns : (3 / 4 : Rat) ≤ min 1 ((r : Rat) / 4) := le_min (by norm_num) (by linarith)
      linarith [le_weight hcount hruns (third_le_density hr hrn)]

theorem weight_lt_ready {r : Nat} (hr : 1 ≤ r) (hrn : r ≤ 3) : weight 3 r .stable < 1299 / 20 := by
  interval_cases r <;> norm_num [weight, trendPenalty]

section Candidates

variable {digest : WalEntry → String} {registry : Registry} (host : Host)
  {events : List DriftEvent}

/-- Drift events of rejections, and no others. -/
theorem patternKey_of_escalates {e : DriftEvent} (h : Escalates e.runId e) :
    patternKey e = patternKey ⟨"", .validation, .high, "", "", 0, escalation, 0⟩ := by
  rw [patternKey, patternKey, h.driftType, h.description]

theorem runs_bounds (hne : events ≠ []) : 1 ≤ runs events ∧ runs events ≤ events.length := by
  constructor
  · rw [Nat.one_le_iff_ne_zero, runs, Ne, List.length_eq_zero_iff]
    intro hnil
    obtain ⟨e, he⟩ := List.exists_mem_of_ne_nil _ hne
    have hmem := List.mem_dedup.mpr (List.mem_map_of_mem (f := DriftEvent.runId) he)
    rw [hnil] at hmem
    exact absurd hmem List.not_mem_nil
  · rw [runs, ← List.length_map (f := DriftEvent.runId)]
    exact (List.dedup_sublist _).length_le

theorem detectCandidates_of_escalates (h : ∀ e ∈ events, Escalates e.runId e) :
    detectCandidates host events 3 = (candidate host .stable 3 events).toList := by
  rcases events.eq_nil_or_concat with rfl | ⟨_, _, rfl⟩
  · rfl
  · rw [detectCandidates_of_same host 3 (by simp) fun e he => patternKey_of_escalates (h e he),
      stable_of_high fun e he => (h e he).severity]

/-- Three drift events are a candidate, and there is no other. -/
theorem candidate_of_escalates (h : ∀ e ∈ events, Escalates e.runId e) :
    (events.length < 3 ∧ candidate host .stable 3 events = none) ∨
      3 ≤ events.length ∧ ∃ c, candidate host .stable 3 events = some c ∧
        c.driftType = .validation ∧ c.occurrenceCount = events.length ∧
        c.affectedRuns = runs events ∧
        (13 / 20 ≤ c.confidence ↔ 1299 / 20 ≤ weight events.length (runs events) .stable) := by
  by_cases hthree : 3 ≤ events.length
  · have hne : events ≠ [] := by
      rintro rfl
      exact absurd hthree (by simp)
    obtain ⟨hone, hle⟩ := runs_bounds hne
    have hweighs : (3 : Int) ≤ events.length ∧ 999 / 20 ≤ weight events.length (runs events) .stable :=
      ⟨by exact_mod_cast hthree, half_le_weight hthree hone hle⟩
    obtain ⟨c, hc⟩ := (candidate_isSome_iff host hne).mpr hweighs
    obtain ⟨first, hfirst, htype, -, hcount, hruns, -, hconfidence⟩ := candidate_eq_some host hc
    refine .inr ⟨hthree, c, hc, htype.trans (h first hfirst).driftType, hcount, hruns, ?_⟩
    have hready := @Rounding.le_roundTo_iff (weight events.length (runs events) .stable / 100) 650
      (by decide) 3
    rw [hconfidence, calculateConfidence_eq]
    norm_num at hready ⊢
    rw [hready]
    constructor
    · intro hle
      linarith
    · intro hle
      linarith
  · refine .inl ⟨not_le.mp hthree, Option.eq_none_iff_forall_ne_some.mpr fun c hc => ?_⟩
    have hne : events ≠ [] := by
      rintro rfl
      cases hc
    obtain ⟨hle, -⟩ := (candidate_isSome_iff host hne).mp ⟨c, hc⟩
    exact hthree (by exact_mod_cast hle)

/-- The rejections of the runs after the second one of each. -/
def escalations (log : List String) : Nat := ∑ slug ∈ log.toFinset, (log.count slug - 2)

end Candidates

end HealingEngine

end Prodinamik.Runs
