import Mathlib.Tactic.NormNum
import Prodinamik.Detect.EmergenceDetector

namespace Prodinamik.Detect

open Lib Grouping Rounding Skills DriftPatternCollector

variable (host : Host)

def detected (maxHistory : Nat) (events : List DriftEvent) (minOccurrences : Int) :
    List EmergenceCandidate :=
  detectCandidates host (retained maxHistory events) minOccurrences

/-- An event of the type of a candidate and with its description, as far as that is kept. -/
def Shown (c : EmergenceCandidate) (e : DriftEvent) : Prop :=
  e.driftType = c.driftType ∧ String.ofList (e.description.toList.take 200) = c.description

/-- An event of the pattern of a candidate. -/
def OwnPattern (c : EmergenceCandidate) (e : DriftEvent) : Prop :=
  e.driftType = c.driftType ∧ e.description.toList.take 50 = c.description.toList.take 50

instance (c : EmergenceCandidate) : DecidablePred (Shown c) := fun _ => inferInstanceAs
  (Decidable (_ ∧ _))

instance (c : EmergenceCandidate) : DecidablePred (OwnPattern c) := fun _ => inferInstanceAs
  (Decidable (_ ∧ _))

/-- A candidate that is borne out by events of its own, whatever else is recorded. -/
structure Justified (maxHistory : Nat) (events : List DriftEvent) (minOccurrences : Int)
    (c : EmergenceCandidate) : Prop where
  occurs : minOccurrences ≤ events.countP fun e => Shown c e
  nonneg : 0 ≤ c.confidence
  le_one : c.confidence ≤ 1
  lasts : c.severityTrend ≠ .improving
  own : ∀ events' : List DriftEvent,
    (events'.filter fun e => OwnPattern c e) = (events.filter fun e => OwnPattern c e) →
      ∃ c' ∈ detected host maxHistory events' minOccurrences, c'.driftType = c.driftType ∧
        c'.description = c.description ∧ c'.severityTrend = c.severityTrend ∧
          c'.confidence = c.confidence

/-- A hundred times what the occurrences, the runs and the trend come to. -/
def weight (occurrences uniqueRuns : Nat) (trend : TrendDirection) : Rat :=
  35 * min 1 ((occurrences : Rat) / 8) + 20 * min 1 ((uniqueRuns : Rat) / 4) +
    25 * min 1 ((occurrences : Rat) / (max uniqueRuns 1 : Nat) / 3) + 25 * trendPenalty trend

def occurrences (events : List DriftEvent) (e : DriftEvent) : List DriftEvent :=
  events.filter fun e' => patternKey e' = patternKey e

def runs (events : List DriftEvent) : Nat := (events.map DriftEvent.runId).dedup.length

theorem calculateConfidence_eq (n r : Nat) (trend : TrendDirection) :
    calculateConfidence n r trend = roundTo 3 (weight n r trend / 100) := by
  rw [calculateConfidence, weight]
  congr 1
  ring

theorem half_le_confidence_iff {n r : Nat} {trend : TrendDirection} :
    1 / 2 ≤ calculateConfidence n r trend ↔ 999 / 20 ≤ weight n r trend := by
  have hhalf := @le_roundTo_iff (weight n r trend / 100) 500 (by decide) 3
  rw [calculateConfidence_eq]
  norm_num at hhalf ⊢
  rw [hhalf]
  constructor
  · intro h
    linarith
  · intro h
    linarith

/-- The parts come to 105 hundredths. -/
theorem confidence_le_one_iff {n r : Nat} {trend : TrendDirection} :
    calculateConfidence n r trend ≤ 1 ↔ weight n r trend ≤ 2001 / 20 := by
  have hone := @roundTo_le_iff (weight n r trend / 100) 1000 (by decide) 3
  rw [calculateConfidence_eq]
  norm_num at hone ⊢
  rw [hone]
  constructor
  · intro h
    linarith
  · intro h
    linarith

theorem confidence_le_one {n r : Nat} {trend : TrendDirection} (h : trend ≠ .degrading) :
    calculateConfidence n r trend ≤ 1 := by
  have hoccurrence : min 1 ((n : Rat) / 8) ≤ 1 := min_le_left _ _
  have hcoverage : min 1 ((r : Rat) / 4) ≤ 1 := min_le_left _ _
  have hdensity : min 1 ((n : Rat) / (max r 1 : Nat) / 3) ≤ 1 := min_le_left _ _
  have hpenalty : trendPenalty trend ≤ 4 / 5 := by
    cases trend with
    | degrading => exact absurd rfl h
    | stable => exact le_rfl
    | improving => norm_num [trendPenalty]
  rw [confidence_le_one_iff, weight]
  linarith

theorem confidence_nonneg (n r : Nat) (trend : TrendDirection) :
    0 ≤ calculateConfidence n r trend := by
  have hoccurrence : 0 ≤ min 1 ((n : Rat) / 8) := le_min zero_le_one (by positivity)
  have hcoverage : 0 ≤ min 1 ((r : Rat) / 4) := le_min zero_le_one (by positivity)
  have hdensity : 0 ≤ min 1 ((n : Rat) / (max r 1 : Nat) / 3) := le_min zero_le_one (by positivity)
  have hpenalty : 0 ≤ trendPenalty trend := by
    cases trend with
    | degrading => exact zero_le_one
    | stable => norm_num [trendPenalty]
    | improving => norm_num [trendPenalty]
  have hweight : 0 ≤ weight n r trend := by
    rw [weight]
    linarith
  have hzero := @le_roundTo_iff (weight n r trend / 100) 0 (by decide) 3
  rw [calculateConfidence_eq]
  norm_num at hzero ⊢
  rw [hzero]
  linarith

example : calculateConfidence 12 4 .degrading = 21 / 20 := by decide +kernel

/-- What a candidate takes over from the events of its key. -/
theorem candidate_eq_some {trend : TrendDirection} {m : Int} {events : List DriftEvent}
    {c : EmergenceCandidate} (h : candidate host trend m events = some c) :
    ∃ first ∈ events, c.driftType = first.driftType ∧
      c.description = String.ofList (first.description.toList.take 200) ∧
      c.occurrenceCount = events.length ∧ c.affectedRuns = runs events ∧
      c.severityTrend = trend ∧
      c.confidence = calculateConfidence events.length (runs events) trend := by
  cases events with
  | nil => cases h
  | cons first rest =>
      simp only [candidate] at h
      split at h
      · cases h
      · split at h
        · cases h
        · obtain rfl := Option.some.inj h
          exact ⟨first, List.mem_cons_self, rfl, rfl, rfl, rfl, rfl, rfl⟩

theorem candidate_isSome_iff {trend : TrendDirection} {m : Int} {events : List DriftEvent}
    (hne : events ≠ []) :
    (∃ c, candidate host trend m events = some c) ↔
      m ≤ events.length ∧ 999 / 20 ≤ weight events.length (runs events) trend := by
  cases events with
  | nil => exact absurd rfl hne
  | cons first rest =>
      simp only [candidate]
      by_cases hm : ((first :: rest).length : Int) < m
      · rw [if_pos hm]
        refine iff_of_false ?_ fun h => absurd h.1 (not_le.mpr hm)
        rintro ⟨c, hc⟩
        cases hc
      · rw [if_neg hm, ← half_le_confidence_iff]
        split
        · rename_i hlow
          refine iff_of_false ?_ fun h => absurd h.2 (not_le.mpr hlow)
          rintro ⟨c, hc⟩
          cases hc
        · rename_i hhigh
          exact iff_of_true ⟨_, rfl⟩ ⟨not_lt.mp hm, not_lt.mp hhigh⟩

theorem mem_detectCandidates {events : List DriftEvent} {m : Int} {c : EmergenceCandidate} :
    c ∈ detectCandidates host events m ↔ ∃ e ∈ events,
      candidate host (analyzeSeverityTrend events).direction m (occurrences events e) = some c := by
  rw [detectCandidates, List.mem_insertionSort, List.mem_filterMap]
  constructor
  · rintro ⟨g, hg, hc⟩
    obtain ⟨⟨e, he, hkey⟩, hgroup⟩ := mem_groupBy.mp hg
    refine ⟨e, he, ?_⟩
    rw [occurrences, hkey, ← hgroup]
    exact hc
  · rintro ⟨e, he, hc⟩
    exact ⟨(patternKey e, occurrences events e), mem_groupBy.mpr ⟨⟨e, he, rfl⟩, rfl⟩, hc⟩

/-- A group of enough events that weighs enough is reported, and no other. -/
theorem detectCandidates_eq_nil_iff {events : List DriftEvent} {m : Int} :
    detectCandidates host events m = [] ↔ ∀ e ∈ events, (occurrences events e).length < m ∨
      weight (occurrences events e).length (runs (occurrences events e))
        (analyzeSeverityTrend events).direction < 999 / 20 := by
  have hgroup (e : DriftEvent) (he : e ∈ events) : occurrences events e ≠ [] :=
    List.ne_nil_of_mem (List.mem_filter.mpr ⟨he, decide_eq_true rfl⟩)
  rw [List.eq_nil_iff_forall_not_mem]
  constructor
  · intro h e he
    by_contra hnot
    obtain ⟨hm, hw⟩ := not_or.mp hnot
    obtain ⟨c, hc⟩ := (candidate_isSome_iff host (hgroup e he)).mpr ⟨not_lt.mp hm, not_lt.mp hw⟩
    exact h c ((mem_detectCandidates host).mpr ⟨e, he, hc⟩)
  · intro h c hmem
    obtain ⟨e, he, hc⟩ := (mem_detectCandidates host).mp hmem
    obtain ⟨hm, hw⟩ := (candidate_isSome_iff host (hgroup e he)).mp ⟨c, hc⟩
    rcases h e he with hlt | hlt
    · exact absurd hm (not_le.mpr hlt)
    · exact absurd hw (not_le.mpr hlt)

/-- A key tells the type and the first fifty characters. -/
theorem patternKey_inj {e e' : DriftEvent} : patternKey e = patternKey e' ↔
    e.driftType = e'.driftType ∧ e.description.toList.take 50 = e'.description.toList.take 50 := by
  have hcolon (t : DriftType) (text : List Char) :
      (t.value.toList ++ ':' :: text).takeWhile (· ≠ ':') = t.value.toList := by cases t <;> rfl
  constructor
  · intro h
    have hlist := congrArg String.toList h
    simp only [patternKey, String.toList_append, String.toList_ofList] at hlist
    rw [List.append_assoc, List.append_assoc] at hlist
    have hhead := congrArg (List.takeWhile (· ≠ ':')) hlist
    have htype := DriftType.value_injective
      (String.toList_injective ((hcolon _ _).symm.trans (hhead.trans (hcolon _ _))))
    rw [htype] at hlist
    exact ⟨htype, List.append_cancel_left (List.append_cancel_left hlist)⟩
  · rintro ⟨htype, htext⟩
    rw [patternKey, patternKey, htype, htext]

/-- A candidate counts the events that are kept of its type and its first fifty characters, and
takes its trend from all that are kept. -/
theorem of_mem_detectCandidates {events : List DriftEvent} {m : Int} {c : EmergenceCandidate}
    (h : c ∈ detectCandidates host events m) :
    m ≤ c.occurrenceCount ∧ (c.occurrenceCount = events.countP fun e => OwnPattern c e) ∧
      c.severityTrend = (analyzeSeverityTrend events).direction ∧
      c.confidence = calculateConfidence c.occurrenceCount c.affectedRuns c.severityTrend ∧
      ∃ e ∈ events, e.driftType = c.driftType := by
  obtain ⟨e, he, hc⟩ := (mem_detectCandidates host).mp h
  obtain ⟨first, hfirst, htype, htext, hcount, hruns, htrend, hconfidence⟩ :=
    candidate_eq_some host hc
  obtain ⟨hmem, hkey⟩ := List.mem_filter.mp hfirst
  have hne : occurrences events e ≠ [] := List.ne_nil_of_mem hfirst
  obtain ⟨hm, -⟩ := (candidate_isSome_iff host hne).mp ⟨c, hc⟩
  refine ⟨hcount ▸ hm, ?_, htrend, ?_, first, hmem, htype.symm⟩
  · rw [hcount, occurrences, ← List.countP_eq_length_filter]
    refine List.countP_congr fun e' _ => ?_
    rw [decide_eq_true_eq, decide_eq_true_eq, ← of_decide_eq_true hkey, patternKey_inj, OwnPattern,
      htype, htext, String.toList_ofList, List.take_take]
    rfl
  · rw [hconfidence, hcount, hruns, htrend]

/-! Events of another type, as many as a trend is taken over. -/

def driftOf (t : DriftType) (severity : DriftSeverity) : DriftEvent :=
  ⟨"d", t, severity, "other", "drafting", 0, "other", 0⟩

def others (t : DriftType) (severity : DriftSeverity) : List DriftEvent :=
  List.replicate 25 (driftOf t .low) ++ List.replicate 25 (driftOf t severity)

theorem length_others (t : DriftType) (severity : DriftSeverity) : (others t severity).length = 50 := by
  rw [others, List.length_append, List.length_replicate, List.length_replicate]

theorem driftType_of_mem_others {t : DriftType} {severity : DriftSeverity} {e : DriftEvent}
    (h : e ∈ others t severity) : e.driftType = t := by
  rcases List.mem_append.mp h with h | h
  · rw [List.eq_of_mem_replicate h]
    rfl
  · rw [List.eq_of_mem_replicate h]
    rfl

/-- The last fifty events alone make the trend. -/
theorem analyze_append_others (events : List DriftEvent) (t : DriftType)
    (severity : DriftSeverity) :
    (analyzeSeverityTrend (events ++ others t severity)).direction =
      (analyzeSeverityTrend (others .format severity)).direction := by
  have hlong (events : List DriftEvent) : ¬(events ++ others t severity).length < 3 := by
    rw [List.length_append, length_others]
    omega
  have hlast : (events ++ others t severity).drop
      ((events ++ others t severity).length - 50) = others t severity := by
    rw [List.length_append, length_others, Nat.add_sub_cancel, List.drop_left]
  have hseverities : (others t severity).map (fun e => severityMap e.severity) =
      (others .format severity).map fun e => severityMap e.severity := by
    simp only [others, List.map_append, List.map_replicate, driftOf]
  have hthree : ¬(others .format severity).length < 3 := by
    rw [length_others]
    decide
  have hfifty : (others .format severity).length - 50 = 0 := by rw [length_others]
  simp only [analyzeSeverityTrend, if_neg (hlong events), if_neg hthree, hlast, hseverities, hfifty,
    List.drop_zero]

theorem exists_other_trend (trend : TrendDirection) : ∃ severity,
    (analyzeSeverityTrend (others .format severity)).direction ≠ trend := by
  cases trend with
  | degrading => exact ⟨.low, by decide +kernel⟩
  | stable => exact ⟨.high, by decide +kernel⟩
  | improving => exact ⟨.high, by decide +kernel⟩

/-- Fifty later events of another type put their own trend in the place of any other. -/
theorem not_own {maxHistory : Nat} {events : List DriftEvent} {m : Int} {c : EmergenceCandidate} :
    ¬Justified host maxHistory events m c := by
  intro h
  obtain ⟨t, ht⟩ : ∃ t, t ≠ c.driftType := by
    cases hformat : c.driftType with
    | format => exact ⟨.content, by decide⟩
    | _ => exact ⟨.format, by decide⟩
  obtain ⟨severity, hseverity⟩ := exists_other_trend c.severityTrend
  have hnone : ((others t severity).filter fun e => OwnPattern c e) = [] :=
    List.filter_eq_nil_iff.mpr fun e he htrue =>
      ht ((driftType_of_mem_others he).symm.trans (of_decide_eq_true htrue).1)
  obtain ⟨c', hc', htype, -, htrend, -⟩ := h.own (events ++ others t severity) (by
    rw [List.filter_append, hnone, List.append_nil])
  obtain ⟨-, -, htaken, -, e, he, hte⟩ := of_mem_detectCandidates host hc'
  have hlength : (events ++ others t severity).length = events.length + 50 := by
    rw [List.length_append, length_others]
  rw [retained_eq, hlength] at htaken he
  by_cases hmax : 50 ≤ maxHistory
  · have hkept : (events ++ others t severity).drop (events.length + 50 - maxHistory) =
        events.drop (events.length + 50 - maxHistory) ++ others t severity :=
      List.drop_append_of_le_length (by omega)
    rw [hkept, analyze_append_others] at htaken
    exact hseverity (htaken.symm.trans htrend)
  · have hsplit : events.length + 50 - maxHistory = events.length + (50 - maxHistory) := by omega
    rw [hsplit, List.drop_length_add_append] at he
    exact ht ((driftType_of_mem_others (List.mem_of_mem_drop he)).symm.trans (hte.trans htype))

/-- All candidates are justified just where there are none. -/
theorem justified_iff (maxHistory : Nat) (events : List DriftEvent) (m : Int) :
    (∀ c ∈ detected host maxHistory events m, Justified host maxHistory events m c) ↔
      ∀ e ∈ retained maxHistory events,
        (occurrences (retained maxHistory events) e).length < m ∨
          weight (occurrences (retained maxHistory events) e).length
            (runs (occurrences (retained maxHistory events) e))
            (analyzeSeverityTrend (retained maxHistory events)).direction < 999 / 20 := by
  rw [← detectCandidates_eq_nil_iff host]
  constructor
  · intro hall
    exact List.eq_nil_iff_forall_not_mem.mpr fun c hc => not_own host (hall c hc)
  · intro hnil c hc
    rw [detected, hnil] at hc
    exact absurd hc List.not_mem_nil

def loopIn (severity : DriftSeverity) : DriftEvent :=
  ⟨"d", .logic, severity, "run", "drafting", 0, "loop in review step", 0⟩

/-- A loop that gets better in one run is a candidate all the same. -/
theorem not_justified_loop :
    ¬∀ (host : Host) (maxHistory : Nat) (events : List DriftEvent) (m : Int),
      ∀ c ∈ detected host maxHistory events m, Justified host maxHistory events m c := by
  intro hall
  have hlasts := hall ⟨fun _ => 0, id⟩ 1000 [loopIn .critical, loopIn .high, loopIn .low] 3
  have hreported : TrendDirection.improving ∈
      (detected ⟨fun _ => 0, id⟩ 1000 [loopIn .critical, loopIn .high, loopIn .low] 3).map
        EmergenceCandidate.severityTrend := by decide +kernel
  obtain ⟨c, hc, htrend⟩ := List.mem_map.mp hreported
  exact (hlasts c hc).lasts htrend

end Prodinamik.Detect
