import Mathlib.Tactic.Linarith
import Mathlib.Tactic.Positivity
import Mathlib.Tactic.FieldSimp
import Prodinamik.Recommend.RunRecommender

namespace Prodinamik.Recommend

open Lib Grouping

def TransitionRecord.pair (r : TransitionRecord) : String × String := (r.fromState, r.toState)

namespace TransitionHistory

/-- The group of records under a key: the last one in which it is written. -/
def lastPair (records : List TransitionRecord) (key : String) : Option (String × String) :=
  ((firsts (records.map TransitionRecord.pair)).filter fun k => transitionKey k.1 k.2 = key).getLast?

/-- Histories that differ in records of other profiles alone. -/
structure SameFor (p : String) (h h' : TransitionHistory) : Prop where
  maxRecords : h'.maxRecords = h.maxRecords
  records : (h'.records.filter fun r => r.profile = p) = h.records.filter fun r => r.profile = p

def advice (r : Recommendation) : List (String × Rat) × String × Rat × List String :=
  (r.recommendedStates, r.bestNextState, r.estimatedDuration, r.warnings)

/-- Records of other profiles do not change what is recommended for a run of a profile. -/
def Isolated (percent : Rat → String) (h : TransitionHistory) (now : Int)
    (runId state p : String) (topN : Int) : Prop :=
  ∀ h', SameFor p h h' → (h'.recommend percent now runId state p topN).map advice =
    (h.recommend percent now runId state p topN).map advice

theorem transitionKey_inj {a b c : String} : transitionKey a b = transitionKey a c ↔ b = c :=
  String.append_right_inj _

/-- A query that is asked for a profile is not changed by the records of others. -/
theorem analyze_congr {h h' : TransitionHistory} {p : String} (hp : p ≠ "")
    (hsame : SameFor p h h') (a : String) : h'.analyze a p = h.analyze a p := by
  have hfiltered : h'.filtered a p = h.filtered a p := by
    simp only [filtered, if_neg hp]
    split
    · exact hsame.records
    · rw [List.filter_comm, hsame.records, List.filter_comm]
  rw [analyze, analyze, hfiltered]

theorem lookup_eq (h : TransitionHistory) (a b : String) :
    h.lookup a b = (lastPair (h.filtered a "") (transitionKey a b)).map fun k =>
      stats k.1 k.2 ((h.filtered a "").filter fun r => r.pair = k) := by
  rw [lookup, analyze, assign_eq, groupBy, List.filter_map, List.getLast?_map, Option.map_map,
    lastPair]
  rfl

theorem lastPair_concat_of_ne {records : List TransitionRecord} {r : TransitionRecord}
    {key : String} (h : transitionKey r.fromState r.toState ≠ key) :
    lastPair (records ++ [r]) key = lastPair records key := by
  have hne : transitionKey r.pair.1 r.pair.2 ≠ key := h
  rw [lastPair, lastPair, List.map_append, List.map_singleton]
  by_cases hmem : r.pair ∈ records.map TransitionRecord.pair
  · rw [firsts_concat_of_mem hmem]
  · rw [firsts_concat_of_notMem hmem, List.filter_append, List.filter_singleton,
      decide_eq_false hne, Bool.cond_false, List.append_nil]

/-- A record of a new transition, or of the one that is found already, is in the group found. -/
theorem lastPair_concat_self {records : List TransitionRecord} {r : TransitionRecord}
    {key : String} (hkey : transitionKey r.fromState r.toState = key)
    (h : r.pair ∉ records.map TransitionRecord.pair ∨ lastPair records key = some r.pair) :
    lastPair (records ++ [r]) key = some r.pair := by
  have hself : transitionKey r.pair.1 r.pair.2 = key := hkey
  rw [lastPair, List.map_append, List.map_singleton]
  by_cases hmem : r.pair ∈ records.map TransitionRecord.pair
  · rw [firsts_concat_of_mem hmem]
    exact h.resolve_left fun hnot => hnot hmem
  · rw [firsts_concat_of_notMem hmem, List.filter_append, List.filter_singleton,
      decide_eq_true hself, Bool.cond_true, List.getLast?_concat]

theorem record_of_lt {h : TransitionHistory} (hlt : h.records.length < h.maxRecords)
    (r : TransitionRecord) : (h.record r).records = h.records ++ [r] := by
  refine if_neg ?_
  rw [List.length_append, List.length_singleton]
  omega

/-- Neither filter of a query keeps a record out that leads on from its state. -/
theorem filtered_concat {h h' : TransitionHistory} {r : TransitionRecord} {a : String}
    (hrecords : h'.records = h.records ++ [r]) :
    h'.filtered a "" =
      h.filtered a "" ++ if a = "" ∨ r.fromState = a then [r] else [] := by
  simp only [filtered, hrecords, if_pos]
  by_cases ha : a = ""
  · rw [if_pos ha, if_pos ha, if_pos (Or.inl ha)]
  · rw [if_neg ha, if_neg ha, List.filter_append, List.filter_singleton]
    by_cases hr : r.fromState = a
    · rw [if_pos (Or.inr hr), decide_eq_true hr, Bool.cond_true]
    · rw [if_neg (not_or.mpr ⟨ha, hr⟩), decide_eq_false hr, Bool.cond_false]

theorem lookup_concat_of_ne {h h' : TransitionHistory} {r : TransitionRecord} {a b : String}
    (hrecords : h'.records = h.records ++ [r])
    (hne : transitionKey r.fromState r.toState ≠ transitionKey a b) :
    h'.lookup a b = h.lookup a b := by
  rw [lookup_eq, lookup_eq, filtered_concat hrecords]
  split
  · rw [lastPair_concat_of_ne hne]
    refine Option.map_congr fun k hk => ?_
    have hkey : transitionKey k.1 k.2 = transitionKey a b :=
      of_decide_eq_true (List.mem_filter.mp (List.mem_of_getLast? hk)).2
    have hpair : r.pair ≠ k := by
      rintro rfl
      exact hne hkey
    rw [List.filter_append, List.filter_singleton, decide_eq_false hpair, Bool.cond_false,
      List.append_nil]
  · rw [List.append_nil]

theorem lookup_concat_self {h h' : TransitionHistory} {r : TransitionRecord} {a b : String}
    (hrecords : h'.records = h.records ++ [r]) (hin : a = "" ∨ r.fromState = a)
    (hkey : transitionKey r.fromState r.toState = transitionKey a b)
    (hlast : r.pair ∉ (h.filtered a "").map TransitionRecord.pair ∨
      lastPair (h.filtered a "") (transitionKey a b) = some r.pair) :
    h'.lookup a b = some (stats r.fromState r.toState
      (((h.filtered a "").filter fun r' => r'.pair = r.pair) ++ [r])) := by
  rw [lookup_eq, filtered_concat hrecords, if_pos hin, lastPair_concat_self hkey hlast,
    Option.map_some, List.filter_append, List.filter_singleton, decide_eq_true rfl, Bool.cond_true]
  rfl

theorem mem_possible {h : TransitionHistory} {a b : String} :
    b ∈ h.getPossibleTransitions a ↔ ∃ r ∈ h.records, r.pair = (a, b) := by
  rw [getPossibleTransitions, List.mem_insertionSort, List.mem_dedup, List.mem_map]
  constructor
  · rintro ⟨r, hr, rfl⟩
    obtain ⟨hmem, hfrom⟩ := List.mem_filter.mp hr
    exact ⟨r, hmem, Prod.ext (of_decide_eq_true hfrom) rfl⟩
  · rintro ⟨r, hr, hpair⟩
    obtain ⟨hfrom, hto⟩ := Prod.mk.inj hpair
    exact ⟨r, List.mem_filter.mpr ⟨hr, decide_eq_true hfrom⟩, hto⟩

theorem possible_congr {h h' : TransitionHistory} {a : String}
    (hmem : ∀ b, b ∈ h'.getPossibleTransitions a ↔ b ∈ h.getPossibleTransitions a) :
    h'.getPossibleTransitions a = h.getPossibleTransitions a := by
  have hsorted (h : TransitionHistory) : (h.getPossibleTransitions a).Pairwise (· ≤ ·) :=
    List.pairwise_insertionSort _ _
  have hnodup (h : TransitionHistory) : (h.getPossibleTransitions a).Nodup :=
    (List.perm_insertionSort _ _).nodup_iff.mpr (List.nodup_dedup _)
  have hperm := (List.perm_ext_iff_of_nodup (hnodup h') (hnodup h)).mpr hmem
  exact hperm.eq_of_pairwise (fun _ _ _ _ => le_antisymm) (hsorted h') (hsorted h)

/-- A record leaves the targets as they are, unless it is the first of its transition. -/
theorem possible_concat {h h' : TransitionHistory} {r : TransitionRecord} {a : String}
    (hrecords : h'.records = h.records ++ [r]) (hknown : ∃ r' ∈ h.records, r'.pair = r.pair) :
    h'.getPossibleTransitions a = h.getPossibleTransitions a := by
  refine possible_congr fun b => ?_
  rw [mem_possible, mem_possible, hrecords]
  constructor
  · rintro ⟨r', hr', hb⟩
    rcases List.mem_append.mp hr' with hr' | hr'
    · exact ⟨r', hr', hb⟩
    · obtain ⟨known, hmem, hpair⟩ := hknown
      rw [List.mem_singleton.mp hr'] at hb
      exact ⟨known, hmem, hpair.trans hb⟩
  · rintro ⟨r', hr', hb⟩
    exact ⟨r', List.mem_append_left _ hr', hb⟩

/-- The best state is the first that no other exceeds. -/
theorem estimated_recommend (percent : Rat → String) (h : TransitionHistory) (now : Int)
    (runId state p : String) (topN : Int) :
    (h.recommend percent now runId state p topN).map Recommendation.estimatedDuration =
      ((h.getValidTargets state p).argmax fun b => h.scoreTransition now state b p).map
        (h.estimateDuration state) := by
  rw [recommend, Option.map_map, scored, Argmax.head?_insertionSort, Argmax.argmax_map,
    Option.map_map]
  rfl

/-! One more record of a transition. -/

theorem avgDuration_concat (a b : String) (recs : List TransitionRecord) (r : TransitionRecord) :
    (stats a b (recs ++ [r])).avgDuration =
      ((recs.map TransitionRecord.durationSeconds).foldl (· + ·) 0 + r.durationSeconds) /
        (recs.length + 1) := by
  have hne : (recs ++ [r]).map TransitionRecord.durationSeconds ≠ [] := by simp
  simp only [stats, if_neg hne, mean]
  rw [List.map_append, List.foldl_append, List.length_append, List.length_map]
  simp

theorem successRate_le_concat (a b : String) {recs : List TransitionRecord} (hne : recs ≠ [])
    {r : TransitionRecord} (hr : r.success = true) :
    (stats a b recs).successRate ≤ (stats a b (recs ++ [r])).successRate := by
  have hpos : 0 < recs.length := List.length_pos_iff.mpr hne
  have hle : (recs.filter TransitionRecord.success).length ≤ recs.length := List.length_filter_le _ _
  have hrate (recs : List TransitionRecord) (hpos : 0 < recs.length) :
      (stats a b recs).successRate =
        ((recs.filter TransitionRecord.success).length : Rat) / recs.length := if_pos hpos
  rw [hrate recs hpos, hrate _ (by simp), List.length_append, List.length_singleton,
    List.filter_append, List.filter_singleton, hr, Bool.cond_true, List.length_append,
    List.length_singleton, div_le_div_iff₀ (by exact_mod_cast hpos) (by positivity)]
  push_cast
  have hcast : ((recs.filter TransitionRecord.success).length : Rat) ≤ recs.length := by
    exact_mod_cast hle
  linarith

theorem exists_lastUsed (a b : String) {recs : List TransitionRecord} (hne : recs ≠ []) :
    ∃ r ∈ recs, (stats a b recs).lastUsed = some r.timestamp := by
  obtain ⟨t, ht⟩ := Option.isSome_iff_exists.mp
    (List.isSome_max?_of_ne_nil (List.map_eq_nil_iff.not.mpr hne) :
      ((recs.map TransitionRecord.timestamp).max?).isSome)
  obtain ⟨r, hr, rfl⟩ := List.mem_map.mp (List.max?_mem ht)
  exact ⟨r, hr, ht⟩

theorem lastUsed_concat (a b : String) {recs : List TransitionRecord} {r : TransitionRecord}
    (hlast : ∀ r' ∈ recs, r'.timestamp ≤ r.timestamp) :
    (stats a b (recs ++ [r])).lastUsed = some r.timestamp := by
  refine List.max?_eq_some_iff.mpr ⟨List.mem_map.mpr ⟨r, by simp, rfl⟩, fun t ht => ?_⟩
  obtain ⟨r', hr', rfl⟩ := List.mem_map.mp ht
  rcases List.mem_append.mp hr' with hr' | hr'
  · exact hlast r' hr'
  · rw [List.mem_singleton.mp hr']

theorem statScore_le_concat (a b : String) (now : Int) {recs : List TransitionRecord}
    (hne : recs ≠ []) {r : TransitionRecord} (hr : r.success = true)
    (hlast : ∀ r' ∈ recs, r'.timestamp ≤ r.timestamp) :
    statScore now (stats a b recs) ≤ statScore now (stats a b (recs ++ [r])) := by
  obtain ⟨r', hr', hbefore⟩ := exists_lastUsed a b hne
  have hafter := lastUsed_concat a b hlast
  have hage : hoursSince now r.timestamp ≤ hoursSince now r'.timestamp := by
    have hcast : (r'.timestamp : Rat) ≤ r.timestamp := by exact_mod_cast hlast r' hr'
    simp only [hoursSince]
    push_cast
    linarith
  have hrecent : max 0 (1 / 5 - hoursSince now r'.timestamp / 720 * (1 / 5)) ≤
      max 0 (1 / 5 - hoursSince now r.timestamp / 720 * (1 / 5)) :=
    max_le_max le_rfl (by linarith)
  have hoften : min (3 / 10) ((recs.length : Rat) / 50 * (3 / 10)) ≤
      min (3 / 10) (((recs ++ [r]).length : Rat) / 50 * (3 / 10)) := by
    refine min_le_min le_rfl ?_
    rw [List.length_append, List.length_singleton]
    push_cast
    linarith
  have hrate := successRate_le_concat a b hne hr
  rw [statScore, statScore, hbefore, hafter]
  have htotal (recs : List TransitionRecord) : (stats a b recs).totalAttempts = recs.length := rfl
  rw [htotal, htotal]
  exact add_le_add (add_le_add (by linarith) hoften) hrecent

/-- A record that no other is later than. -/
def latest (h : TransitionHistory) (now : Int) : Int :=
  (h.records.map TransitionRecord.timestamp).foldl max now

theorem le_latest {h : TransitionHistory} {r : TransitionRecord} (hr : r ∈ h.records) (now : Int) :
    r.timestamp ≤ h.latest now :=
  PyList.le_foldl_max (List.mem_cons_of_mem _ (List.mem_map_of_mem hr))

/-- A record of another profile, of a transition that took its time. -/
def foreign (h : TransitionHistory) (now : Int) (p : String) (k : String × String) (d : Rat) :
    TransitionRecord where
  runId := "run"
  profile := p ++ "x"
  fromState := k.1
  toState := k.2
  timestamp := h.latest now
  durationSeconds := d
  success := true

theorem foreign_profile_ne (h : TransitionHistory) (now : Int) (p : String) (k : String × String)
    (d : Rat) : (h.foreign now p k d).profile ≠ p := by
  intro heq
  have hlength := congrArg String.length heq
  simp [foreign, String.length_append] at hlength

/-- The statistics that are found of an observed transition. -/
theorem exists_lastPair {h : TransitionHistory} {a b : String}
    (hmem : b ∈ h.getPossibleTransitions a) :
    ∃ k, lastPair (h.filtered a "") (transitionKey a b) = some k := by
  obtain ⟨r, hr, hpair⟩ := mem_possible.mp hmem
  obtain ⟨hfrom, -⟩ := Prod.mk.inj hpair
  have hin : r ∈ h.filtered a "" := by
    rw [filtered, if_pos rfl]
    split
    · exact hr
    · exact List.mem_filter.mpr ⟨hr, decide_eq_true hfrom⟩
  have hkey : transitionKey r.pair.1 r.pair.2 = transitionKey a b := by rw [hpair]
  have hfirst : r.pair ∈ (firsts ((h.filtered a "").map TransitionRecord.pair)).filter
      fun k => transitionKey k.1 k.2 = transitionKey a b :=
    List.mem_filter.mpr ⟨mem_firsts.mpr (List.mem_map_of_mem hin), decide_eq_true hkey⟩
  exact Option.ne_none_iff_exists'.mp
    (List.getLast?_eq_none_iff.not.mpr (List.ne_nil_of_mem hfirst))

/-- The transition of a group that is found leads on from the state, unless its texts only read
the same. -/
theorem of_lastPair {h : TransitionHistory} {a b : String} {k : String × String}
    (hk : lastPair (h.filtered a "") (transitionKey a b) = some k) :
    transitionKey k.1 k.2 = transitionKey a b ∧ (a = "" ∨ k.1 = a) ∧
      ∃ r ∈ h.filtered a "", r.pair = k := by
  obtain ⟨hfirst, hkey⟩ := List.mem_filter.mp (List.mem_of_getLast? hk)
  obtain ⟨r, hr, rfl⟩ := List.mem_map.mp (mem_firsts.mp hfirst)
  refine ⟨of_decide_eq_true hkey, ?_, r, hr, rfl⟩
  rw [filtered, if_pos rfl] at hr
  split at hr
  · exact Or.inl ‹_›
  · exact Or.inr (of_decide_eq_true (List.mem_filter.mp hr).2)

theorem mem_of_mem_filtered {h : TransitionHistory} {a : String} {r : TransitionRecord}
    (hr : r ∈ h.filtered a "") : r ∈ h.records := by
  rw [filtered, if_pos rfl] at hr
  split at hr
  · exact hr
  · exact List.mem_of_mem_filter hr

section Room

variable {h : TransitionHistory} (hlt : h.records.length < h.maxRecords) (now : Int)
  (p a : String)

include hlt

/-- One more run of the best transition leaves it the best and changes how long it takes. -/
theorem best_foreign {b : String}
    (hbest : (h.getPossibleTransitions a).argmax (fun b => h.scoreTransition now a b p) = some b) :
    ∃ k total n, ∀ d, let h' := h.record (h.foreign now p k d)
      h'.getPossibleTransitions a = h.getPossibleTransitions a ∧
      ((h'.getPossibleTransitions a).argmax fun b => h'.scoreTransition now a b p) = some b ∧
      h'.estimateDuration a b = (total + d) / (n + 1 : Nat) := by
  have hmem : b ∈ h.getPossibleTransitions a := List.argmax_mem hbest
  obtain ⟨k, hk⟩ := exists_lastPair hmem
  obtain ⟨hkey, hin, r, hr, hpair⟩ := of_lastPair hk
  generalize hgroup : ((h.filtered a "").filter fun r' => r'.pair = k) = group
  have hne : group ≠ [] := by
    rw [← hgroup]
    exact List.ne_nil_of_mem (List.mem_filter.mpr ⟨hr, decide_eq_true hpair⟩)
  have hbefore : h.lookup a b = some (stats k.1 k.2 group) := by
    rw [lookup_eq, hk, Option.map_some, hgroup]
  refine ⟨k, (group.map TransitionRecord.durationSeconds).foldl (· + ·) 0, group.length, ?_⟩
  intro d h'
  have hrecords : h'.records = h.records ++ [h.foreign now p k d] := record_of_lt hlt _
  have hafter : h'.lookup a b = some (stats k.1 k.2 (group ++ [h.foreign now p k d])) := by
    rw [lookup_concat_self hrecords hin hkey (Or.inr hk)]
    exact congrArg (fun g => some (stats k.1 k.2 (g ++ [h.foreign now p k d]))) hgroup
  have hsame : h'.getPossibleTransitions a = h.getPossibleTransitions a :=
    possible_concat hrecords ⟨r, mem_of_mem_filtered hr, hpair⟩
  refine ⟨hsame, ?_, ?_⟩
  · rw [hsame]
    refine Argmax.argmax_of_le hbest ?_ fun c _ hcb => ?_
    · rw [scoreTransition, scoreTransition, hbefore, hafter]
      refine statScore_le_concat _ _ now hne rfl fun r' hr' => le_latest ?_ now
      rw [← hgroup] at hr'
      exact mem_of_mem_filtered (List.mem_of_mem_filter hr')
    · rw [scoreTransition, scoreTransition, lookup_concat_of_ne hrecords]
      intro heq
      exact hcb (transitionKey_inj.mp (heq.symm.trans hkey))
  · rw [estimateDuration, hafter]
    exact (avgDuration_concat _ _ _ _).trans (by push_cast; rfl)

/-- Where nothing was observed a run to any state makes it the only target. -/
theorem only_foreign (hnone : h.getPossibleTransitions a = []) (d : Rat) :
    let h' := h.record (h.foreign now p (a, "x") d)
    h'.getPossibleTransitions a = ["x"] ∧ h'.estimateDuration a "x" = d := by
  intro h'
  have hrecords : h'.records = h.records ++ [h.foreign now p (a, "x") d] := record_of_lt hlt _
  have hnot : ∀ r ∈ h.records, ∀ c, r.pair ≠ (a, c) := by
    intro r hr c hpair
    have hmem := mem_possible.mpr ⟨r, hr, hpair⟩
    rw [hnone] at hmem
    exact absurd hmem List.not_mem_nil
  constructor
  · have hfilter : (h.records.filter fun r => r.fromState = a) = [] :=
      List.filter_eq_nil_iff.mpr fun r hr htrue =>
        hnot r hr r.toState (Prod.ext (of_decide_eq_true htrue) rfl)
    have hkept : decide ((h.foreign now p (a, "x") d).fromState = a) = true := decide_eq_true rfl
    rw [getPossibleTransitions, hrecords, List.filter_append, hfilter, List.filter_singleton, hkept]
    rfl
  · have hnew : (h.foreign now p (a, "x") d).pair ∉
        (h.filtered a "").map TransitionRecord.pair := by
      intro hmem
      obtain ⟨r, hr, hpair⟩ := List.mem_map.mp hmem
      exact hnot r (mem_of_mem_filtered hr) "x" hpair
    have hempty : ((h.filtered a "").filter fun r' => r'.pair = (a, "x")) = [] :=
      List.filter_eq_nil_iff.mpr fun r hr htrue =>
        hnot r (mem_of_mem_filtered hr) "x" (of_decide_eq_true htrue)
    have hstats : h'.lookup a "x" = some (stats a "x" ([] ++ [h.foreign now p (a, "x") d])) := by
      refine (lookup_concat_self hrecords (Or.inr rfl) rfl (Or.inl hnew)).trans ?_
      exact congrArg (fun g => some (stats a "x" (g ++ [h.foreign now p (a, "x") d]))) hempty
    rw [estimateDuration, hstats]
    refine (avgDuration_concat _ _ _ _).trans ?_
    simp [foreign]

/-- How long the best transition is said to take, with one more run of it. -/
theorem exists_estimated (percent : Rat → String) (runId : String) (topN : Int) :
    ∃ (r : Rat → TransitionRecord) (total : Rat) (n : Nat), ∀ d, (r d).profile ≠ p ∧
      ((h.record (r d)).recommend percent now runId a p topN).map
        Recommendation.estimatedDuration = some ((total + d) / (n + 1 : Nat)) := by
  by_cases hnone : h.getPossibleTransitions a = []
  · refine ⟨h.foreign now p (a, "x"), 0, 0, fun d => ⟨foreign_profile_ne _ _ _ _ _, ?_⟩⟩
    obtain ⟨htargets, hd⟩ := only_foreign hlt now p a hnone d
    rw [estimated_recommend, getValidTargets, htargets, if_neg (List.cons_ne_nil _ _),
      List.argmax_singleton, Option.map_some, hd]
    simp
  · obtain ⟨b, hbest⟩ : ∃ b,
        (h.getPossibleTransitions a).argmax (fun b => h.scoreTransition now a b p) = some b :=
      Option.ne_none_iff_exists'.mp fun h' => hnone (List.argmax_eq_none.mp h')
    obtain ⟨k, total, n, hall⟩ := best_foreign hlt now p a hbest
    refine ⟨h.foreign now p k, total, n, fun d => ⟨foreign_profile_ne _ _ _ _ _, ?_⟩⟩
    obtain ⟨hsame, hstill, hd⟩ := hall d
    rw [estimated_recommend, getValidTargets, if_neg (hsame ▸ hnone), hstill, Option.map_some, hd]

end Room

def alone (h : TransitionHistory) (p : String) : TransitionHistory where
  maxRecords := h.maxRecords
  records := h.records.filter fun r => r.profile = p
  bounded := (List.length_filter_le _ _).trans h.bounded

theorem sameFor_record {h : TransitionHistory} {p : String}
    (hlt : (h.alone p).records.length < h.maxRecords) {r : TransitionRecord} (hr : r.profile ≠ p) :
    SameFor p h ((h.alone p).record r) where
  maxRecords := rfl
  records := by
    rw [record_of_lt hlt, List.filter_append, List.filter_singleton, decide_eq_false hr,
      Bool.cond_false, List.append_nil, alone, List.filter_filter]
    simp

/-- A profile is kept apart from the others just where its own records fill the history. -/
theorem recommend_isolated_iff (percent : Rat → String) (h : TransitionHistory) (now : Int)
    (runId state p : String) (topN : Int) :
    Isolated percent h now runId state p topN ↔
      h.maxRecords ≤ (h.records.filter fun r => r.profile = p).length := by
  constructor
  · intro hisolated
    by_contra hroom
    have hlt : (h.alone p).records.length < (h.alone p).maxRecords := not_le.mp hroom
    obtain ⟨r, total, n, hall⟩ := exists_estimated hlt now p state percent runId topN
    have hsaid (d : Rat) : (h.recommend percent now runId state p topN).map
        Recommendation.estimatedDuration = some ((total + d) / (n + 1 : Nat)) := by
      obtain ⟨hprofile, hd⟩ := hall d
      have hadvice := hisolated _ (sameFor_record hlt hprofile)
      have hduration := congrArg (Option.map fun x => x.2.2.1) hadvice
      rw [Option.map_map, Option.map_map] at hduration
      exact hduration.symm.trans hd
    have heq := Option.some.inj ((hsaid 0).symm.trans (hsaid 1))
    have hne : ((n + 1 : Nat) : Rat) ≠ 0 := Nat.cast_ne_zero.mpr (Nat.succ_ne_zero n)
    have hnumerators := (div_left_inj' hne).mp heq
    linarith
  · intro hfull h' hsame
    have hall (g : TransitionHistory)
        (hg : g.maxRecords ≤ (g.records.filter fun r => r.profile = p).length) :
        (g.records.filter fun r => r.profile = p) = g.records :=
      List.filter_sublist.eq_of_length_le (g.bounded.trans hg)
    have hrecords : h'.records = h.records := by
      rw [← hall h hfull, ← hall h' (by rw [hsame.records, hsame.maxRecords]; exact hfull),
        hsame.records]
    have heq : h' = h := by
      obtain ⟨maxRecords, records, bounded⟩ := h
      obtain ⟨maxRecords', records', bounded'⟩ := h'
      obtain rfl : maxRecords' = maxRecords := hsame.maxRecords
      obtain rfl : records' = records := hrecords
      rfl
    rw [heq]

def rejectedElsewhere : TransitionHistory where
  records :=
    [{  runId := "run"
        profile := "other"
        fromState := "captured"
        toState := "rejected"
        timestamp := 0
        durationSeconds := 10
        success := false
        error := some "spam" }]
  bounded := by decide

/-- The only run of another profile decides where a run of this one is sent. -/
theorem not_isolated_rejected :
    ¬∀ (h : TransitionHistory) (now : Int) (runId state p : String),
      Isolated (fun _ => "0%") h now runId state p 3 := by
  intro hall
  have hadvice := hall ⟨5000, [], by decide⟩ 0 "run" "captured" "content" rejectedElsewhere
    ⟨rfl, by decide +kernel⟩
  have hbest := congrArg (Option.map fun x => x.2.1) hadvice
  rw [Option.map_map, Option.map_map] at hbest
  exact absurd hbest (by decide +kernel)

end TransitionHistory

end Prodinamik.Recommend
