import Mathlib.Algebra.BigOperators.Group.List.Basic
import Mathlib.Algebra.Ring.Rat
import Prodinamik.Events.Compaction
import Prodinamik.Lib.Table

namespace Prodinamik.Events

namespace EventStore

/-- An event that cost_summary adds up. -/
def IsCosted (e : Event) : Prop :=
  e.eventType = EventType.validation.value ∨ e.eventType = EventType.validationDetail.value

instance : DecidablePred IsCosted := fun e =>
  inferInstanceAs (Decidable (e.eventType = EventType.validation.value ∨
    e.eventType = EventType.validationDetail.value))

/-- What an event costs a validator. -/
def share (validator : String) (e : Event) : Rat :=
  if IsCosted e ∧ e.data.validator.getD "unknown" = validator then e.costUsd else 0

def costOf (events : List Event) (validator : String) : Rat := (events.map (share validator)).sum

theorem costOf_cons (e : Event) (events : List Event) (validator : String) :
    costOf (e :: events) validator = share validator e + costOf events validator := by
  rw [costOf, List.map_cons, List.sum_cons, costOf]

/-- costs.get(validator, 0.0) -/
def tableCost (costs : List (String × Rat)) (validator : String) : Rat :=
  ((costs.find? fun c => c.1 = validator).map Prod.snd).getD 0

theorem tableCost_addCost (costs : List (String × Rat)) (name : String) (cost : Rat)
    (validator : String) : tableCost (addCost costs name cost) validator =
      tableCost costs validator + if name = validator then cost else 0 := by
  rw [addCost]
  split
  case isTrue hname =>
    have hkeys : ((fun c : String × Rat => decide (c.1 = validator)) ∘
        fun c => if c.1 = name then (c.1, c.2 + cost) else c) = fun c => decide (c.1 = validator) := by
      funext c
      simp only [Function.comp_apply]
      split <;> rfl
    rw [tableCost, List.find?_map, hkeys, tableCost]
    cases hfind : costs.find? fun c => c.1 = validator with
    | none =>
        have hne : name ≠ validator := by
          rintro rfl
          obtain ⟨c, hc, hcname⟩ := List.mem_map.mp hname
          exact List.find?_eq_none.mp hfind c hc (decide_eq_true hcname)
        rw [if_neg hne]
        exact (add_zero _).symm
    | some c =>
        have hc : c.1 = validator := by simpa using List.find?_some hfind
        by_cases hname : name = validator
        · simp [hname, hc]
        · simp [hname, hc, Ne.symm hname]
  case isFalse hname =>
    rw [tableCost, List.find?_append, tableCost]
    cases hfind : costs.find? fun c => c.1 = validator with
    | none => by_cases hname : name = validator <;> simp [hname]
    | some c =>
        have hc : c.1 = validator := by simpa using List.find?_some hfind
        have hne : name ≠ validator := by
          rintro rfl
          exact hname (List.mem_map.mpr ⟨c, List.mem_of_find?_eq_some hfind, hc⟩)
        simp [hne]

theorem nodup_addCost {costs : List (String × Rat)} (h : (costs.map Prod.fst).Nodup) (name : String)
    (cost : Rat) : ((addCost costs name cost).map Prod.fst).Nodup := by
  rw [addCost]
  split
  case isTrue =>
    have hkeys : (Prod.fst ∘ fun c : String × Rat => if c.1 = name then (c.1, c.2 + cost) else c) =
        Prod.fst := by
      funext c
      simp only [Function.comp_apply]
      split <;> rfl
    rwa [List.map_map, hkeys]
  case isFalse hname =>
    rw [List.map_append]
    exact h.append (List.nodup_singleton name) (by simpa using hname)

/-- What the loop of cost_summary adds up for a validator. -/
theorem foldl_addCost {events : List Event} (hcosted : ∀ e ∈ events, IsCosted e)
    {costs : List (String × Rat)} (h : (costs.map Prod.fst).Nodup) (validator : String) :
    ((events.foldl (fun costs e => addCost costs (e.data.validator.getD "unknown") e.costUsd)
      costs).map Prod.fst).Nodup ∧
    tableCost (events.foldl (fun costs e =>
      addCost costs (e.data.validator.getD "unknown") e.costUsd) costs) validator =
      tableCost costs validator + costOf events validator := by
  induction events generalizing costs with
  | nil => exact ⟨h, (add_zero _).symm⟩
  | cons e events ih =>
      obtain ⟨he, hcosted⟩ := List.forall_mem_cons.mp hcosted
      obtain ⟨hnodup, hcost⟩ := ih hcosted (nodup_addCost h (e.data.validator.getD "unknown") e.costUsd)
      have hshare : share validator e =
          if e.data.validator.getD "unknown" = validator then e.costUsd else 0 :=
        if_congr (and_iff_right he) rfl rfl
      refine ⟨hnodup, hcost.trans ?_⟩
      rw [tableCost_addCost, costOf_cons, hshare, add_assoc]

/-- A table of which no key comes twice costs the same in any order. -/
theorem tableCost_perm {costs costs' : List (String × Rat)} (hperm : costs.Perm costs')
    (h : (costs.map Prod.fst).Nodup) (validator : String) :
    tableCost costs validator = tableCost costs' validator := by
  have hfind : (costs.find? fun c => c.1 = validator) = costs'.find? fun c => c.1 = validator := by
    refine Option.ext fun c => ?_
    have hget := @Lib.Table.get_eq_some _ _ _ _ (⟨costs, h⟩ : Lib.Table Prod.fst) validator c
    have hget' := @Lib.Table.get_eq_some _ _ _ _
      (⟨costs', (hperm.map Prod.fst).nodup_iff.mp h⟩ : Lib.Table Prod.fst) validator c
    exact hget.trans (Iff.trans (and_congr_left fun _ => hperm.mem_iff) hget'.symm)
  rw [tableCost, tableCost, hfind]

theorem share_of_not_costed {validator : String} {e : Event} (h : ¬ IsCosted e) :
    share validator e = 0 :=
  if_neg fun hcosted => h hcosted.1

theorem costOf_costed (events : List Event) (p : Event → Prop) [DecidablePred p]
    (validator : String) : costOf (events.filter fun e => IsCosted e ∧ p e) validator =
      costOf (events.filter p) validator := by
  induction events with
  | nil => rfl
  | cons e events ih =>
      by_cases hp : p e
      · by_cases hcosted : IsCosted e
        · rw [List.filter_cons_of_pos (by simp [hp, hcosted]), List.filter_cons_of_pos (by simp [hp])]
          rw [costOf_cons, costOf_cons, ih]
        · rw [List.filter_cons_of_neg (by simp [hcosted]), List.filter_cons_of_pos (by simp [hp]), ih,
            costOf_cons, share_of_not_costed hcosted, zero_add]
      · rw [List.filter_cons_of_neg (by simp [hp]), List.filter_cons_of_neg (by simp [hp]), ih]

/-- The cost that cost_summary shows for a validator. -/
theorem tableCost_costSummary (s : EventStore) (since validator : String) :
    tableCost (s.costSummary since) validator =
      costOf (s.getAll.filter fun e => since = "" ∨ since ≤ e.timestamp) validator := by
  have hcosted : ∀ e ∈ s.getAll.filter fun e => IsCosted e ∧ (since = "" ∨ since ≤ e.timestamp),
      IsCosted e := fun e he => (of_decide_eq_true (List.mem_filter.mp he).2).1
  obtain ⟨hnodup, hcost⟩ := @foldl_addCost _ hcosted [] List.nodup_nil validator
  rw [← costOf_costed]
  refine Eq.trans ?_ (hcost.trans (zero_add _))
  exact (tableCost_perm (List.perm_insertionSort _ _).symm hnodup validator).symm

/-- The cost of a validator that cost_summary still sees. -/
def visible (s : EventStore) (validator : String) : Rat := tableCost (s.costSummary "") validator

/-- What an event records as compacted, if it is a summary. -/
def recordedIn (validator : String) (e : Event) : Rat :=
  if e.eventType = EventType.weeklySummary.value then
    e.data.summary.elim 0 fun m => tableCost m.topValidators validator
  else 0

/-- The cost of a validator that the summaries record. -/
def recorded (s : EventStore) (validator : String) : Rat :=
  (s.getAll.map (recordedIn validator)).sum

/-- The first text of a time. -/
def periodStart (events : List Event) : String :=
  (events.map Event.timestamp).foldl min ((events.map Event.timestamp).headD "")

/-- A summary has the costs of the events that it compacts, and no cost of a validator is lost or
doubled. -/
structure KeepsAccounts (policy : EventRetentionPolicy) (s : EventStore) (now : Int)
    (after : EventStore) (m : Summary) : Prop where
  total : m.totalCost = ((s.old policy now).map Event.costUsd).sum
  table : ∀ validator, tableCost m.topValidators validator = costOf (s.old policy now) validator
  kept : ∀ validator, after.visible validator + after.recorded validator =
    s.visible validator + s.recorded validator

variable (policy : EventRetentionPolicy)

/-- The events that stay, from the time of the first old one on. -/
def staying (s : EventStore) (now : Int) : List Event :=
  (s.getAll.filter fun e => e.sequence ∉ s.details policy now).filter fun e =>
    periodStart (s.old policy now) = "" ∨ periodStart (s.old policy now) ≤ e.timestamp

/-- The events that can be seen and are removed. -/
def removed (s : EventStore) (now : Int) : List Event :=
  s.getAll.filter fun e => e.sequence ∈ s.details policy now

/-- The old events that are no details, and the details beyond the counter. -/
def others (s : EventStore) (now : Int) : List Event :=
  (s.old policy now).filter fun e => ¬ (IsDetail e ∧ e.sequence ≤ s.lastSequence)

/-- Where compact goes through, what stays from the first old event on costs every validator as much
as what is removed, and the other old events cost nothing in sum. -/
def Balanced (s : EventStore) (now : Int) : Prop :=
  (∀ n ∈ s.index, Comparable policy s.dir n) → 10 ≤ (s.old policy now).length → ∀ validator,
    costOf (s.staying policy now) validator = costOf (s.removed policy now) validator ∧
      costOf (s.others policy now) validator = 0

variable {policy} {s : EventStore}

theorem getAll_withoutDetails (hs : s.Sound) (now : Int) :
    (s.withoutDetails policy now).getAll =
      s.getAll.filter fun e => e.sequence ∉ s.details policy now := by
  rw [getAll_eq, getAll_eq, read, read, List.filter_filterMap]
  refine List.filterMap_congr fun n _ => Option.ext fun e => ?_
  rw [Option.filter_eq_some_iff, get_eq_some, get_eq_some, withoutDetails, List.mem_filter,
    EventDir.lookup_unlinks, decide_eq_true_iff, decide_eq_true_iff]
  constructor
  · rintro ⟨⟨hn, hkept⟩, hfile⟩
    rw [if_neg hkept] at hfile
    rw [(hs.dir.numbered n e hfile).1]
    exact ⟨⟨hn, hfile⟩, hkept⟩
  · rintro ⟨⟨hn, hfile⟩, hkept⟩
    rw [(hs.dir.numbered n e hfile).1] at hkept
    rw [if_neg hkept]
    exact ⟨⟨hn, hkept⟩, hfile⟩

theorem mem_removed (hs : s.Sound) {now : Int} {e : Event} : e ∈ s.removed policy now ↔
    e ∈ s.old policy now ∧ IsDetail e ∧ e.sequence ≤ s.lastSequence := by
  rw [removed, List.mem_filter, mem_getAll, decide_eq_true_iff]
  constructor
  · rintro ⟨⟨n, ⟨-, hle⟩, he⟩, hdetail⟩
    have hn := (hs.sequence he).1
    obtain ⟨e', he', hsame⟩ := List.mem_map.mp hdetail
    obtain ⟨he', hdetail'⟩ := List.mem_filter.mp he'
    have hfile := (hs.mem_old he').2
    rw [hsame, hn, (get_eq_some.mp he).2] at hfile
    cases hfile
    exact ⟨he', of_decide_eq_true hdetail', hn ▸ hle⟩
  · rintro ⟨he, hdetail, hle⟩
    obtain ⟨hin, hfile⟩ := hs.mem_old he
    exact ⟨⟨e.sequence, ⟨(hs.dir.numbered _ e hfile).2, hle⟩, get_eq_some.mpr ⟨hin, hfile⟩⟩,
      (hs.mem_details he).mpr hdetail⟩

/-- The cost of the old events is that of the details that are seen and that of the others. -/
theorem costOf_old (hs : s.Sound) (now : Int) (validator : String) :
    costOf (s.old policy now) validator =
      costOf (s.removed policy now) validator + costOf (s.others policy now) validator := by
  have hold : (s.old policy now).Nodup :=
    List.Nodup.of_map _ (hs.nodup.sublist (hs.old_sublist now))
  have hall : s.getAll.Nodup := by
    rw [getAll_eq]
    exact (hs.increasing_read _ _).imp fun hlt heq => (heq ▸ hlt).ne rfl
  have hperm : (s.removed policy now).Perm
      ((s.old policy now).filter fun e => IsDetail e ∧ e.sequence ≤ s.lastSequence) := by
    refine (List.perm_ext_iff_of_nodup (hall.filter _) (hold.filter _)).mpr fun e => ?_
    refine (mem_removed hs).trans ?_
    rw [List.mem_filter, decide_eq_true_iff]
  rw [costOf, costOf, costOf, (hperm.map _).sum_eq, others]
  exact (List.sum_map_filter_add_sum_map_filter_not _ _ _).symm

section Many

variable (hs : s.Sound) (h : ∀ n ∈ s.index, Comparable policy s.dir n) {now : Int}
  (hmany : 10 ≤ (s.old policy now).length) (slug nowText : String)
include hs h hmany

/-- All events after a compaction: those without the details, and the summary. -/
theorem getAll_many : (s.after (s.compact policy slug now nowText)).getAll =
    (s.withoutDetails policy now).getAll ++
      [{ s.summary policy slug now nowText with sequence := s.lastSequence + 1 }] := by
  have hlast : (s.after (s.compact policy slug now nowText)).lastSequence = s.lastSequence + 1 := by
    rw [EventStore.after, hs.compact_many h hmany]
  have hsummary : (s.after (s.compact policy slug now nowText)).get (s.lastSequence + 1) =
      some { s.summary policy slug now nowText with sequence := s.lastSequence + 1 } := by
    rw [get_eq_some, index_many hs h hmany, hs.lookup_many h hmany, if_pos rfl]
    exact ⟨mem_addKey.mpr (.inl rfl), rfl⟩
  have hothers : ∀ n ∈ List.range' 1 s.lastSequence,
      (s.after (s.compact policy slug now nowText)).get n = (s.withoutDetails policy now).get n := by
    intro n hn
    have hne : n ≠ s.lastSequence + 1 := by
      rw [List.mem_range'_1] at hn
      omega
    refine Option.ext fun e => ?_
    rw [get_eq_some, get_eq_some, index_many hs h hmany, hs.lookup_many h hmany, if_neg hne,
      mem_addKey, or_iff_right hne, withoutDetails, EventDir.lookup_unlinks]
  rw [getAll_eq, getAll_eq, hlast, List.range'_1_concat, read, List.filterMap_append, ← read,
    List.filterMap_cons, Nat.add_comm 1, hsummary, List.filterMap_nil]
  exact congrArg (· ++ _) (List.filterMap_congr hothers)

theorem visible_many (validator : String) :
    (s.after (s.compact policy slug now nowText)).visible validator +
      costOf (s.removed policy now) validator = s.visible validator := by
  have hall (t : EventStore) : t.visible validator = costOf t.getAll validator := by
    rw [visible, tableCost_costSummary]
    exact congrArg (costOf · validator) (List.filter_eq_self.mpr fun e _ => decide_eq_true (.inl rfl))
  have hfree : share validator
      { s.summary policy slug now nowText with sequence := s.lastSequence + 1 } = 0 := by
    refine share_of_not_costed fun hcosted => ?_
    obtain hcosted | hcosted := hcosted
    · exact absurd (show EventType.weeklySummary.value = EventType.validation.value from hcosted)
        (by decide)
    · exact absurd (show EventType.weeklySummary.value = EventType.validationDetail.value from hcosted)
        (by decide)
  rw [hall, hall, getAll_many hs h hmany, getAll_withoutDetails hs, costOf, List.map_append,
    List.sum_append, List.map_singleton, List.sum_singleton, hfree, add_zero, removed, costOf, costOf,
    add_comm]
  exact List.sum_map_filter_add_sum_map_filter_not _ _ _

theorem recorded_many (validator : String) :
    (s.after (s.compact policy slug now nowText)).recorded validator =
      s.recorded validator + costOf (s.staying policy now) validator := by
  have hsummary : recordedIn validator
      { s.summary policy slug now nowText with sequence := s.lastSequence + 1 } =
      costOf (s.staying policy now) validator := by
    refine (if_pos rfl).trans ?_
    change tableCost ((s.withoutDetails policy now).costSummary (periodStart (s.old policy now)))
      validator = _
    rw [tableCost_costSummary, getAll_withoutDetails hs, staying]
  have hdetails : ((s.removed policy now).map (recordedIn validator)).sum = 0 := by
    refine List.sum_eq_zero fun x hx => ?_
    obtain ⟨e, he, rfl⟩ := List.mem_map.mp hx
    have hdetail : IsDetail e := ((mem_removed hs).mp he).2.1
    refine if_neg fun htype => ?_
    rw [IsDetail, htype] at hdetail
    exact absurd hdetail (by decide)
  have hsplit := List.sum_map_filter_add_sum_map_filter_not
    (fun e => e.sequence ∈ s.details policy now) (recordedIn validator) s.getAll
  rw [← removed, hdetails, zero_add] at hsplit
  rw [recorded, recorded, getAll_many hs h hmany, getAll_withoutDetails hs, List.map_append,
    List.sum_append, List.map_singleton, List.sum_singleton, hsummary, ← hsplit]

/-- A summary with the costs of what stays keeps the accounts exactly if the costs balance. -/
theorem keepsAccounts_many {m : Summary}
    (htotal : m.totalCost = ((s.old policy now).map Event.costUsd).sum)
    (htable : ∀ validator,
      tableCost m.topValidators validator = costOf (s.staying policy now) validator) :
    KeepsAccounts policy s now (s.after (s.compact policy slug now nowText)) m ↔ ∀ validator,
      costOf (s.staying policy now) validator = costOf (s.removed policy now) validator ∧
        costOf (s.others policy now) validator = 0 := by
  have hkept (validator : String) :
      (s.after (s.compact policy slug now nowText)).visible validator +
          (s.after (s.compact policy slug now nowText)).recorded validator =
        s.visible validator + s.recorded validator ↔
      costOf (s.staying policy now) validator = costOf (s.removed policy now) validator := by
    rw [recorded_many hs h hmany, ← visible_many hs h hmany slug nowText validator, add_assoc,
      add_right_inj, add_comm (costOf (s.removed policy now) validator), add_right_inj]
  constructor
  · intro hkeeps validator
    have hremoved := (hkept validator).mp (hkeeps.kept validator)
    have hold := hkeeps.table validator
    rw [htable, costOf_old hs, hremoved] at hold
    exact ⟨hremoved, left_eq_add.mp hold⟩
  · intro hbalanced
    refine ⟨htotal, fun validator => ?_, fun validator => (hkept validator).mpr (hbalanced validator).1⟩
    rw [htable, costOf_old hs, (hbalanced validator).1, (hbalanced validator).2, add_zero]

end Many

/-- In a reached store a compaction that goes through keeps the accounts exactly if the costs
balance. -/
theorem keepsAccounts_iff (policy : EventRetentionPolicy) (archived : List Nat)
    (incidents : List Incident) (slug : String) (now : Int) (nowText : String) :
    let s := incidents.foldl (step policy) (start archived)
    (∀ e, (s.compact policy slug now nowText).result = .ok (some e) → ∃ m, e.data.summary = some m ∧
      KeepsAccounts policy s now (s.after (s.compact policy slug now nowText)) m) ↔
      s.Balanced policy now := by
  intro s
  have hs : s.Sound := sound_run archived incidents
  by_cases h : ∀ n ∈ s.index, Comparable policy s.dir n
  · by_cases hmany : 10 ≤ (s.old policy now).length
    · have hresult : (s.compact policy slug now nowText).result =
          .ok (some { s.summary policy slug now nowText with sequence := s.lastSequence + 1 }) := by
        rw [hs.compact_many h hmany]
      obtain ⟨m, hm⟩ : ∃ m, (s.summary policy slug now nowText).data.summary = some m := ⟨_, rfl⟩
      have htotal : m.totalCost = ((s.old policy now).map Event.costUsd).sum := by
        cases hm
        change (s.old policy now).foldl (fun total e => total + e.costUsd) 0 = _
        rw [List.sum_eq_foldl, List.foldl_map]
      have htable (validator : String) :
          tableCost m.topValidators validator = costOf (s.staying policy now) validator := by
        cases hm
        change tableCost ((s.withoutDetails policy now).costSummary (periodStart (s.old policy now)))
          validator = _
        rw [tableCost_costSummary, getAll_withoutDetails hs, staying]
      have hiff := keepsAccounts_many hs h hmany slug nowText htotal htable
      constructor
      · intro hkeeps _ _
        obtain ⟨m', hm', hkeeps⟩ := hkeeps _ hresult
        cases hm.symm.trans hm'
        exact hiff.mp hkeeps
      · intro hbalanced e he
        cases hresult.symm.trans he
        exact ⟨m, hm, hiff.mpr (hbalanced h hmany)⟩
    · refine iff_of_true (fun e he => ?_) fun _ hmany' => absurd hmany' hmany
      rw [compact_few h (not_le.mp hmany)] at he
      cases he
  · refine iff_of_true (fun e he => ?_) fun h' => absurd h' h
    obtain ⟨err, herr⟩ := compact_raises h slug now nowText
    rw [herr] at he
    cases he

/-- Ten details that cost one dollar each. -/
def costlyDetails : List Incident :=
  [.request (.call (.appendMany (List.replicate 10 { Session.sampleDraft with
    event := { Session.sampleDraft.event with
      eventType := "validation_detail", costUsd := 1 } })))]

/-- The details are removed before their costs are added up, so the summary has none of them. -/
theorem not_keepsAccounts : ¬ ∀ (policy : EventRetentionPolicy) (archived : List Nat)
    (incidents : List Incident) (slug : String) (now : Int) (nowText : String) (e : Event),
    let s := incidents.foldl (step policy) (start archived)
    (s.compact policy slug now nowText).result = .ok (some e) → ∃ m, e.data.summary = some m ∧
      KeepsAccounts policy s now (s.after (s.compact policy slug now nowText)) m := by
  intro h
  have hsound : (costlyDetails.foldl (step Session.samplePolicy) (start [])).Sound :=
    sound_run [] costlyDetails
  have hresult := @Sound.compact_many Session.samplePolicy _ hsound (by decide +kernel)
    (EventRetentionPolicy.days 40) (by decide +kernel) "demo" ""
  obtain ⟨m, hm, hkeeps⟩ := h Session.samplePolicy [] costlyDetails "demo"
    (EventRetentionPolicy.days 40) "" _ (congrArg Outcome.result hresult)
  cases hm
  have htable := hkeeps.table "unknown"
  revert htable
  decide +kernel

end EventStore

end Prodinamik.Events
