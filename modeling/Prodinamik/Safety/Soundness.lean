import Mathlib.Algebra.BigOperators.Group.List.Basic
import Mathlib.Algebra.Order.BigOperators.Group.List
import Mathlib.Algebra.Order.Ring.Rat
import Mathlib.Tactic.Linarith
import Prodinamik.Safety.Monitor

namespace Prodinamik.Safety

variable {H : Type}

namespace Invariant

/-- All components that the invariant is about are given. -/
def Supplied (i : Invariant H) (c : Context H) : Prop :=
  ∀ name ∈ i.parameters, (Arguments.ofContext c).given name = true

/-- The predicate is false of the components. -/
def Fails (i : Invariant H) (c : Context H) : Prop := i.check (Arguments.ofContext c) = .ok false

theorem callWithContext_of_supplied {i : Invariant H} {c : Context H} (h : i.Supplied c) :
    i.callWithContext c = i.check (Arguments.ofContext c) := by
  have hnone : (i.parameters.filter fun name => !(Arguments.ofContext c).given name) = [] := by
    rw [List.filter_eq_nil_iff]
    intro name hname
    rw [h name hname]
    exact Bool.false_ne_true
  rw [callWithContext]
  exact if_pos hnone

/-- A parameter that is not given is a TypeError. -/
theorem callWithContext_missing {i : Invariant H} {c : Context H} (h : ¬ i.Supplied c) :
    ∃ e, i.callWithContext c = .error e := by
  have hsome : (i.parameters.filter fun name => !(Arguments.ofContext c).given name) ≠ [] := by
    intro hnil
    apply h
    intro name hname
    have hgiven := List.filter_eq_nil_iff.mp hnil name hname
    rwa [Bool.not_eq_true', Bool.not_eq_false] at hgiven
  exact ⟨missing (i.parameters.filter fun name => !(Arguments.ofContext c).given name),
    if_neg hsome⟩

theorem not_supplied_stateExists (c : Context H) : ¬ stateExists.Supplied c := fun h =>
  Bool.false_ne_true (h "s" (List.mem_cons_of_mem _ List.mem_cons_self))

theorem not_supplied_validTransition (c : Context H) : ¬ validTransition.Supplied c := fun h =>
  Bool.false_ne_true (h "f" (List.mem_cons_of_mem _ List.mem_cons_self))

theorem nodup_names : ((all : List (Invariant H)).map name).Nodup := by
  have hnames : (all : List (Invariant H)).map name =
      ["state_exists", "valid_transition", "no_state_leak", "monotonic_progress",
        "budget_respected", "event_count_reasonable", "no_orphan_events", "cache_fresh",
        "drift_not_exploding", "cross_profile_no_cycle"] := rfl
  rw [hnames]
  decide

end Invariant

namespace RuntimeSafetyMonitor

/-- Only violations of invariants whose components are all given and fail it are reported. -/
def Sound (c : Context H) (k : Checked H) : Prop :=
  ∀ v ∈ k.newViolations, ∃ i ∈ (Invariant.all : List (Invariant H)),
    i.name = v.name ∧ i.Supplied c ∧ i.Fails c

theorem newViolations_checkOne (loopRunning : Bool) (timestamp : String) (k : Checked H)
    (i : Invariant H) :
    k.newViolations <+: (checkOne loopRunning timestamp k i).newViolations := by
  have haction {k k' : Checked H} {action : String}
      (h : takeAction loopRunning action k = .ok k') : k'.newViolations = k.newViolations := by
    rw [takeAction] at h
    split at h
    · split at h
      · cases h
        rfl
      · cases h
    · split at h
      · cases h
        rfl
      · cases h
        rfl
  rw [checkOne]
  split
  · exact List.prefix_append _ _
  · exact List.prefix_refl _
  · simp only
    split
    · rw [report, report, List.append_assoc]
      exact List.prefix_append _ _
    · rename_i k' hk'
      rw [haction hk']
      exact List.prefix_append _ _

theorem newViolations_foldl (loopRunning : Bool) (timestamp : String) (is : List (Invariant H))
    (k : Checked H) :
    k.newViolations <+: (is.foldl (checkOne loopRunning timestamp) k).newViolations := by
  induction is generalizing k with
  | nil => exact List.prefix_refl _
  | cons i is ih => exact (newViolations_checkOne loopRunning timestamp k i).trans (ih _)

/-- The state and the ends of the transition are never given, so two checks fail every time. -/
theorem checkAll_violations (m : RuntimeSafetyMonitor) (loopRunning : Bool) (c : Context H)
    (timestamp : String) : ∃ e e' rest, (m.checkAll loopRunning c timestamp).2.newViolations =
      failedCheck "state_exists" e timestamp :: failedCheck "valid_transition" e' timestamp :: rest := by
  obtain ⟨e, he⟩ := Invariant.callWithContext_missing (Invariant.not_supplied_stateExists c)
  obtain ⟨e', he'⟩ := Invariant.callWithContext_missing (Invariant.not_supplied_validTransition c)
  have hfirst : checkOne loopRunning timestamp { context := c } Invariant.stateExists =
      report { context := c } (failedCheck "state_exists" e timestamp) := by
    rw [checkOne, he]
    rfl
  have hsecond : checkOne loopRunning timestamp
      (report { context := c } (failedCheck "state_exists" e timestamp)) Invariant.validTransition =
      report (report { context := c } (failedCheck "state_exists" e timestamp))
        (failedCheck "valid_transition" e' timestamp) := by
    have hsame : Invariant.validTransition.callWithContext
        (report { context := c } (failedCheck "state_exists" e timestamp)).context = .error e' := he'
    rw [checkOne, hsame]
    rfl
  obtain ⟨rest, hrest⟩ := newViolations_foldl loopRunning timestamp (Invariant.all.drop 2)
    (report (report { context := c } (failedCheck "state_exists" e timestamp))
        (failedCheck "valid_transition" e' timestamp))
  refine ⟨e, e', rest, ?_⟩
  have hall : (Invariant.all : List (Invariant H)) = Invariant.stateExists ::
      Invariant.validTransition :: Invariant.all.drop 2 := rfl
  rw [checkAll, hall, List.foldl_cons, List.foldl_cons, hfirst, hsecond, ← hrest]
  rfl

theorem weight_nonneg (v : InvariantViolation) : 0 ≤ weight v := by
  rw [weight]
  split
  · norm_num
  · split <;> norm_num

/-- Two critical violations more are six tenths less. -/
theorem healthScore_checkAll (m : RuntimeSafetyMonitor) (loopRunning : Bool) (c : Context H)
    (timestamp : String) :
    (m.checkAll loopRunning c timestamp).1.healthScore ≤ max 0 (m.healthScore - 6 / 10) := by
  obtain ⟨e, e', rest, hviolations⟩ := checkAll_violations m loopRunning c timestamp
  have hactive : (m.checkAll loopRunning c timestamp).1.activeViolations =
      m.activeViolations ++ failedCheck "state_exists" e timestamp ::
        failedCheck "valid_transition" e' timestamp :: rest.filter fun v => !v.resolved := by
    rw [activeViolations]
    change (m.violations ++ (m.checkAll loopRunning c timestamp).2.newViolations).filter _ = _
    rw [hviolations, List.filter_append, List.filter_cons_of_pos (by rfl),
      List.filter_cons_of_pos (by rfl)]
    rfl
  rw [healthScore, hactive]
  split
  case isTrue => exact le_max_left _ _
  case isFalse hfatal =>
    have hnot : ¬ (m.activeViolations.filter fun v => v.severity = "FATAL") ≠ [] := by
      intro hne
      apply hfatal
      rw [List.filter_append]
      exact List.append_ne_nil_of_left_ne_nil hne _
    have hrest : 0 ≤ ((rest.filter fun v => !v.resolved).map weight).sum :=
      List.sum_nonneg fun x hx => by
        obtain ⟨v, -, rfl⟩ := List.mem_map.mp hx
        exact weight_nonneg v
    have hcritical (name error : String) : weight (failedCheck name error timestamp) = 3 / 10 :=
      if_pos rfl
    rw [healthScore, if_neg hnot, List.map_append, List.sum_append, List.map_cons, List.map_cons,
      List.sum_cons, List.sum_cons, hcritical, hcritical]
    refine max_le_max le_rfl ?_
    have hle := le_max_right 0 (1 - (m.activeViolations.map weight).sum)
    linarith

/-- The state whose existence is checked cannot be given: check_all is sound for no components,
and lowers every score. -/
theorem checkAll_unsound (m : RuntimeSafetyMonitor) (loopRunning : Bool) (c : Context H)
    (timestamp : String) : ¬ Sound c (m.checkAll loopRunning c timestamp).2 ∧
      (m.checkAll loopRunning c timestamp).1.healthScore ≤ max 0 (m.healthScore - 6 / 10) := by
  refine ⟨fun h => ?_, healthScore_checkAll m loopRunning c timestamp⟩
  obtain ⟨e, e', rest, hviolations⟩ := checkAll_violations m loopRunning c timestamp
  obtain ⟨i, hi, hname, hsupplied, -⟩ := h (failedCheck "state_exists" e timestamp)
    (hviolations ▸ List.mem_cons_self)
  have hstate : i = Invariant.stateExists :=
    List.inj_on_of_nodup_map Invariant.nodup_names hi List.mem_cons_self hname
  exact Invariant.not_supplied_stateExists c (hstate ▸ hsupplied)

/-- Nothing is given and nothing is wrong. -/
theorem not_checkAll_sound : ¬ ∀ (m : RuntimeSafetyMonitor) (loopRunning : Bool)
    (c : Context String) (timestamp : String), Sound c (m.checkAll loopRunning c timestamp).2 := by
  intro h
  obtain ⟨e, e', rest, hviolations⟩ := checkAll_violations {} true ({} : Context String) ""
  obtain ⟨i, hi, -, -, hfails⟩ := h {} true {} "" (failedCheck "state_exists" e "")
    (hviolations ▸ List.mem_cons_self)
  have htrue : ∀ i ∈ (Invariant.all : List (Invariant String)),
      i.check (Arguments.ofContext {}) = .ok true := by decide +kernel
  rw [Invariant.Fails, htrue i hi] at hfails
  cases hfails

end RuntimeSafetyMonitor

end Prodinamik.Safety
