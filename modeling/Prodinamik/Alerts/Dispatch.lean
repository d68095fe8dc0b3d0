import Mathlib.Data.List.Perm.Basic
import Prodinamik.Alerts.AlertManager
import Prodinamik.Lib.Text

namespace Prodinamik.Alerts

open Lib.Throttle

/-- A call of send_alert, with its two readings of the clock. -/
structure Sending where
  level : String
  title : String
  message : String
  source : String
  timestamp : String
  reading : Rat
  stamp : Rat

/-- An alert comes in, or one of the threads that deliver has its turn. -/
inductive AlertOp
  | send (s : Sending)
  | deliver (i : Nat) (reading stamp : Rat)

/-- What a thread that delivers found, and when. -/
structure Attempt where
  channel : String
  alert : Alert
  reading : Rat
  stamp : Rat

/-- A manager with the threads that have not yet looked at the clock, those that
have and those of them that post. -/
structure Dispatch where
  manager : AlertManager
  waiting : List (String × Alert) := []
  attempts : List Attempt := []
  posted : List Attempt := []

namespace Dispatch

def step (d : Dispatch) : AlertOp → Dispatch
  | .send s =>
    match d.manager.sendAlert s.level s.title s.message s.source s.timestamp s.reading s.stamp with
    | none => d
    | some (m, started) => { d with manager := m, waiting := d.waiting ++ started }
  | .deliver i reading stamp =>
    match d.waiting[i]? with
    | none => d
    | some (channel, alert) =>
        let attempt : Attempt := ⟨channel, alert, reading, stamp⟩
        let (m, posts) := d.manager.deliver channel reading stamp
        { manager := m
          waiting := d.waiting.eraseIdx i
          attempts := d.attempts ++ [attempt]
          posted := if posts then d.posted ++ [attempt] else d.posted }

end Dispatch

/-- An alert of a known level, with the readings of the clock of its call. -/
structure Incoming where
  alert : Alert
  reading : Rat
  stamp : Rat

def Sending.incoming (s : Sending) : Option Incoming :=
  (Level.ofValue s.level).map fun level =>
    ⟨⟨level, s.title, s.message, s.source, s.timestamp⟩, s.reading, s.stamp⟩

namespace AlertOp

def incoming : AlertOp → Option Incoming
  | send s => s.incoming
  | deliver _ _ _ => none

def reading : AlertOp → Rat
  | send s => s.reading
  | deliver _ reading _ => reading

def stamp : AlertOp → Rat
  | send s => s.stamp
  | deliver _ _ stamp => stamp

theorem clock_incoming {op : AlertOp} {i : Incoming} (h : op.incoming = some i) :
    i.reading = op.reading ∧ i.stamp = op.stamp := by
  cases op with
  | deliver => cases h
  | send s =>
      obtain ⟨level, -, rfl⟩ := Option.map_eq_some_iff.mp h
      exact ⟨rfl, rfl⟩

theorem inOrder_incoming {ops : List AlertOp} (h : InOrder reading stamp ops) :
    InOrder Incoming.reading Incoming.stamp (ops.filterMap incoming) where
  stamped := by
    intro i hi
    obtain ⟨op, hop, hincoming⟩ := List.mem_filterMap.mp hi
    obtain ⟨hreading, hstamp⟩ := clock_incoming hincoming
    rw [hreading, hstamp]
    exact h.stamped op hop
  after := by
    refine List.Pairwise.filterMap _ ?_ h.after
    intro a b hab i hi j hj
    rw [(clock_incoming hi).2, (clock_incoming hj).1]
    exact hab

end AlertOp

namespace Alert

theorem toList_dedupKey (a : Alert) :
    a.dedupKey.toList = a.level.value.toList ++ ':' :: a.title.toList := by
  simp [dedupKey]

/-- The key tells alerts apart by level and title, as no level has a colon. -/
theorem dedupKey_eq_iff {a b : Alert} :
    a.dedupKey = b.dedupKey ↔ a.level = b.level ∧ a.title = b.title := by
  constructor
  · intro h
    have hpartition := congrArg (fun s => Lib.Text.partition ':' s.toList) h
    simp only [toList_dedupKey] at hpartition
    rw [Lib.Text.partition_append a.level.notMem_value,
      Lib.Text.partition_append b.level.notMem_value] at hpartition
    obtain ⟨hlevel, htitle⟩ := Prod.ext_iff.mp hpartition
    exact ⟨Level.value_injective (String.toList_injective hlevel),
      String.toList_injective htitle⟩
  · rintro ⟨hlevel, htitle⟩
    rw [dedupKey, dedupKey, hlevel, htitle]

end Alert

namespace AlertManager

variable (m : AlertManager)

theorem nodup_enabledChannels : m.enabledChannels.Nodup := by
  rw [enabledChannels]
  split <;> split <;> split <;> decide

/-- The stamp that the next delivery on a channel is compared with. -/
def used (channel : String) : Option Rat := some ((m.lastSent channel).getD 0)

theorem sendAlert_eq (s : Sending) :
    m.sendAlert s.level s.title s.message s.source s.timestamp s.reading s.stamp =
      s.incoming.map fun i => m.record i.alert i.reading i.stamp := by
  rw [sendAlert, Sending.incoming]
  cases Level.ofValue s.level <;> rfl

end AlertManager

namespace Dispatch

def run (d : Dispatch) (ops : List AlertOp) : Dispatch := ops.foldl step d

/-- A turn of a thread that is not there. -/
theorem step_absent {d : Dispatch} {i : Nat} (h : d.waiting[i]? = none) (reading stamp : Rat) :
    d.step (.deliver i reading stamp) = d := by
  rw [step, h]

/-- A thread looks at the clock once and is gone. -/
theorem step_deliver {d : Dispatch} {i : Nat} {channel : String} {alert : Alert}
    (h : d.waiting[i]? = some (channel, alert)) (reading stamp : Rat) :
    d.step (.deliver i reading stamp) =
      { manager := if admits d.manager.minIntervalSec (d.manager.used channel) reading then
          { d.manager with
            lastSent := Function.update d.manager.lastSent channel (some stamp) } else d.manager
        waiting := d.waiting.eraseIdx i
        attempts := d.attempts ++ [⟨channel, alert, reading, stamp⟩]
        posted := if admits d.manager.minIntervalSec (d.manager.used channel) reading then
          d.posted ++ [⟨channel, alert, reading, stamp⟩] else d.posted } := by
  rw [step, h]
  dsimp only
  rw [AlertManager.deliver, AlertManager.used]
  split <;> rfl

/-- A call that is let through is kept in the history and starts its deliveries. -/
theorem step_send (d : Dispatch) (s : Sending) : d.step (.send s) = s.incoming.elim d fun i =>
    if admits d.manager.dedupWindowSec (d.manager.dedupCache i.alert.dedupKey) i.reading then
      { d with
        manager := { d.manager with
          dedupCache := Function.update d.manager.dedupCache i.alert.dedupKey (some i.stamp)
          history := d.manager.history ++ [i.alert] }
        waiting := d.waiting ++ d.manager.enabledChannels.map fun channel => (channel, i.alert) }
    else d := by
  rw [step, AlertManager.sendAlert_eq]
  cases s.incoming with
  | none => rfl
  | some i =>
      simp only [Option.map_some, Option.elim_some, AlertManager.record]
      split
      · rfl
      · rw [List.append_nil]

/-- What a call or a delivery leaves as it is. -/
theorem step_config (d : Dispatch) (op : AlertOp) :
    (d.step op).manager.enabledChannels = d.manager.enabledChannels ∧
      (d.step op).manager.dedupWindowSec = d.manager.dedupWindowSec ∧
      (d.step op).manager.minIntervalSec = d.manager.minIntervalSec := by
  cases op with
  | send s =>
      rw [step_send]
      cases s.incoming with
      | none => exact ⟨rfl, rfl, rfl⟩
      | some i =>
          rw [Option.elim_some]
          split <;> exact ⟨rfl, rfl, rfl⟩
  | deliver i reading stamp =>
      cases h : d.waiting[i]? with
      | none =>
          rw [step_absent h]
          exact ⟨rfl, rfl, rfl⟩
      | some delivery =>
          rw [step_deliver h]
          dsimp only
          split <;> exact ⟨rfl, rfl, rfl⟩

theorem run_enabledChannels (d : Dispatch) (ops : List AlertOp) :
    (d.run ops).manager.enabledChannels = d.manager.enabledChannels := by
  induction ops generalizing d with
  | nil => rfl
  | cons op ops ih => exact (ih (d.step op)).trans (d.step_config op).1

theorem step_deliver_recorded (d : Dispatch) (i : Nat) (reading stamp : Rat) :
    (d.step (.deliver i reading stamp)).manager.history = d.manager.history ∧
      (d.step (.deliver i reading stamp)).manager.dedupCache = d.manager.dedupCache := by
  cases h : d.waiting[i]? with
  | none =>
      rw [step_absent h]
      exact ⟨rfl, rfl⟩
  | some delivery =>
      rw [step_deliver h]
      dsimp only
      split <;> exact ⟨rfl, rfl⟩

theorem step_send_delivered (d : Dispatch) (s : Sending) :
    (d.step (.send s)).manager.used = d.manager.used ∧
      (d.step (.send s)).attempts = d.attempts ∧ (d.step (.send s)).posted = d.posted := by
  rw [step_send]
  cases s.incoming with
  | none => exact ⟨rfl, rfl, rfl⟩
  | some i =>
      rw [Option.elim_some]
      split <;> exact ⟨rfl, rfl, rfl⟩

/-- The calls of a run that are let through. -/
def recorded (d : Dispatch) (ops : List AlertOp) : List Incoming :=
  throttle d.manager.dedupWindowSec Incoming.reading Incoming.stamp (fun i => i.alert.dedupKey)
    d.manager.dedupCache (ops.filterMap AlertOp.incoming)

theorem history_run (d : Dispatch) (ops : List AlertOp) :
    (d.run ops).manager.history =
      d.manager.history ++ (d.recorded ops).map Incoming.alert := by
  induction ops generalizing d with
  | nil => simp [run, recorded, throttle]
  | cons op ops ih =>
      rw [run, List.foldl_cons, ← run, ih, recorded, recorded, (d.step_config op).2.1]
      cases op with
      | deliver i reading stamp =>
          obtain ⟨hhistory, hcache⟩ := d.step_deliver_recorded i reading stamp
          rw [hhistory, hcache, List.filterMap_cons_none rfl]
      | send s =>
          rw [step_send]
          cases hs : s.incoming with
          | none =>
              have hnone : AlertOp.incoming (.send s) = none := hs
              rw [List.filterMap_cons_none hnone, Option.elim_none]
          | some i =>
              have hsome : AlertOp.incoming (.send s) = some i := hs
              rw [List.filterMap_cons_some hsome, Option.elim_some, throttle]
              split
              · rw [List.map_cons, List.append_assoc]
                rfl
              · rfl

/-- Deliveries on a channel go by when the channel was last used. -/
theorem posted_run (d : Dispatch) (ops : List AlertOp) : ∃ attempts : List Attempt,
    (d.run ops).attempts = d.attempts ++ attempts ∧
      (d.run ops).posted = d.posted ++ throttle d.manager.minIntervalSec Attempt.reading
        Attempt.stamp Attempt.channel d.manager.used attempts ∧
      (attempts.map fun a => (a.reading, a.stamp)).Sublist
        (ops.map fun op => (op.reading, op.stamp)) := by
  induction ops generalizing d with
  | nil => exact ⟨[], by simp [run], by simp [run, throttle], List.Sublist.refl _⟩
  | cons op ops ih =>
      obtain ⟨attempts, hattempts, hposted, hclock⟩ := ih (d.step op)
      rw [(d.step_config op).2.2] at hposted
      rw [run, List.foldl_cons, ← run, hattempts, hposted]
      cases op with
      | send s =>
          obtain ⟨hused, hsame, hsame'⟩ := d.step_send_delivered s
          rw [hused, hsame, hsame']
          exact ⟨attempts, rfl, rfl, hclock.cons _⟩
      | deliver i reading stamp =>
          cases h : d.waiting[i]? with
          | none =>
              rw [step_absent h]
              exact ⟨attempts, rfl, rfl, hclock.cons _⟩
          | some delivery =>
              obtain ⟨channel, alert⟩ := delivery
              refine ⟨⟨channel, alert, reading, stamp⟩ :: attempts, ?_, ?_, hclock.cons_cons _⟩
              · rw [step_deliver h, List.append_assoc]
                rfl
              · rw [step_deliver h, throttle]
                dsimp only
                split
                · rw [List.append_assoc, List.singleton_append]
                  congr 3
                  funext c
                  rw [AlertManager.used]
                  dsimp only
                  by_cases hc : c = channel
                  · subst hc
                    rw [Function.update_self, Function.update_self, Option.getD_some]
                  · rw [Function.update_of_ne hc, Function.update_of_ne hc, AlertManager.used]
                · rfl

/-- Of each channel, what its threads have found or are about to find. -/
def deliveries (d : Dispatch) (channel : String) : List Alert :=
  (d.attempts.filter fun a => a.channel = channel).map Attempt.alert ++
    (d.waiting.filter fun w => w.1 = channel).map Prod.snd

/-- Every alert of the history has one delivery on each channel that is set up. -/
def Balanced (d : Dispatch) : Prop :=
  ∀ channel, (d.deliveries channel).Perm
    (if channel ∈ d.manager.enabledChannels then d.manager.history else [])

theorem filter_started (m : AlertManager) (channel : String) (alert : Alert) :
    ((m.enabledChannels.map fun c => (c, alert)).filter fun w => w.1 = channel).map Prod.snd =
      if channel ∈ m.enabledChannels then [alert] else [] := by
  have hfilter : ((m.enabledChannels.map fun c => (c, alert)).filter fun w => w.1 = channel) =
      (m.enabledChannels.filter (· = channel)).map fun c => (c, alert) := by
    rw [List.filter_map]
    rfl
  rw [hfilter, List.filter_eq, m.nodup_enabledChannels.count, List.map_map]
  split <;> rfl

theorem balanced_step {d : Dispatch} (h : d.Balanced) (op : AlertOp) : (d.step op).Balanced := by
  intro channel
  rw [(d.step_config op).1]
  cases op with
  | send s =>
      rw [step_send]
      cases s.incoming with
      | none => exact h channel
      | some i =>
          rw [Option.elim_some]
          split
          case isFalse => exact h channel
          case isTrue =>
            -- one thread is started on each channel that is set up
            have hfilter := filter_started d.manager channel i.alert
            rw [deliveries, List.filter_append, List.map_append, hfilter, ← List.append_assoc]
            have hperm := h channel
            rw [deliveries] at hperm
            split
            · rename_i hmem
              rw [if_pos hmem] at hperm
              exact hperm.append_right _
            · rename_i hmem
              rw [if_neg hmem] at hperm
              rwa [List.append_nil]
  | deliver i reading stamp =>
      rw [(d.step_deliver_recorded i reading stamp).1]
      cases hi : d.waiting[i]? with
      | none =>
          rw [step_absent hi]
          exact h channel
      | some delivery =>
          refine List.Perm.trans ?_ (h channel)
          have hwaiting := (List.getElem_cons_eraseIdx_perm
            (List.getElem?_eq_some_iff.mp hi).1).symm
          rw [(List.getElem?_eq_some_iff.mp hi).2] at hwaiting
          have hchannel := (hwaiting.filter fun w => w.1 = channel).map Prod.snd
          rw [step_deliver hi, deliveries, deliveries, List.filter_append, List.map_append,
            List.append_assoc]
          refine List.Perm.append_left _ (List.Perm.trans ?_ hchannel.symm)
          by_cases hc : delivery.1 = channel
          · rw [List.filter_cons_of_pos (by simpa using hc), List.filter_cons_of_pos (by simpa using hc)]
            rfl
          · rw [List.filter_cons_of_neg (by simpa using hc), List.filter_cons_of_neg (by simpa using hc)]
            rfl

theorem balanced_run {d : Dispatch} (h : d.Balanced) (ops : List AlertOp) :
    (d.run ops).Balanced := by
  induction ops generalizing d with
  | nil => exact h
  | cons op ops ih => exact ih (balanced_step h op)

/-- A warning at the times 100, 200 and 500, delivered each time. -/
def repeatedWarning : List AlertOp :=
  [.send ⟨"warning", "Budget", "", "engine", "", 100, 100⟩, .deliver 0 101 101,
    .send ⟨"warning", "Budget", "", "engine", "", 200, 200⟩, .deliver 0 201 201,
    .send ⟨"warning", "Budget", "", "engine", "", 500, 500⟩, .deliver 0 501 502]

theorem inOrder_repeatedWarning : InOrder AlertOp.reading AlertOp.stamp repeatedWarning :=
  ⟨by decide, by decide⟩

/-- The alerts of a level and a title that a run puts in the history are those that come a
window of deduplication after the last one that was put there. -/
theorem history_debounced (d : Dispatch) {ops : List AlertOp}
    (hclock : InOrder AlertOp.reading AlertOp.stamp ops) : ∃ recorded : List Incoming,
      recorded.Sublist (ops.filterMap AlertOp.incoming) ∧
      (d.run ops).manager.history = d.manager.history ++ recorded.map Incoming.alert ∧
      ∀ alert : Alert,
        let same : Incoming → Bool := fun i =>
          i.alert.level = alert.level ∧ i.alert.title = alert.title
        recorded.filter same = debounce d.manager.dedupWindowSec Incoming.reading Incoming.stamp
          (d.manager.dedupCache alert.dedupKey) ((ops.filterMap AlertOp.incoming).filter same) ∧
        Spaced d.manager.dedupWindowSec Incoming.stamp (recorded.filter same) := by
  refine ⟨d.recorded ops, throttle_sublist _ _, d.history_run ops, ?_⟩
  intro alert same
  have hsame : same = fun i => decide (i.alert.dedupKey = alert.dedupKey) := by
    funext i
    exact decide_eq_decide.mpr Alert.dedupKey_eq_iff.symm
  have hfilter : (d.recorded ops).filter same = debounce d.manager.dedupWindowSec
      Incoming.reading Incoming.stamp (d.manager.dedupCache alert.dedupKey)
      ((ops.filterMap AlertOp.incoming).filter same) := by
    rw [hsame]
    exact filter_throttle _ _ _
  refine ⟨hfilter, ?_⟩
  rw [hfilter]
  exact debounce_spaced ((AlertOp.inOrder_incoming hclock).sublist List.filter_sublist)

theorem history_debounced_repeated : ∃ recorded : List Incoming,
    recorded.Sublist (repeatedWarning.filterMap AlertOp.incoming) ∧
      (run { manager := { genericWebhook := "hook" } } repeatedWarning).manager.history =
        recorded.map Incoming.alert ∧ recorded.length = 2 := by
  let d : Dispatch := { manager := { genericWebhook := "hook" } }
  obtain ⟨recorded, hsub, hhistory, -⟩ := history_debounced d inOrder_repeatedWarning
  have hlength : (d.run repeatedWarning).manager.history.length = 2 := by decide +kernel
  refine ⟨recorded, hsub, hhistory, ?_⟩
  rw [← hlength, hhistory, List.length_append, List.length_map]
  exact (Nat.zero_add _).symm

/-- From a manager without a history, every alert of the history has one delivery on each channel
that is set up, now or later, and those that post are spaced by the interval of the channel. -/
theorem deliveries_spaced {m : AlertManager} (hfresh : m.history = []) {ops : List AlertOp}
    (hclock : InOrder AlertOp.reading AlertOp.stamp ops) (channel : String) :
    let d := run { manager := m } ops
    let attempts := d.attempts.filter fun a => a.channel = channel
    let posted := d.posted.filter fun a => a.channel = channel
    (attempts.map Attempt.alert ++ (d.waiting.filter fun w => w.1 = channel).map Prod.snd).Perm
        (if channel ∈ m.enabledChannels then d.manager.history else []) ∧
      posted = debounce m.minIntervalSec Attempt.reading Attempt.stamp
        (some ((m.lastSent channel).getD 0)) attempts ∧
      Spaced m.minIntervalSec Attempt.stamp posted ∧
      ∀ first rest last, posted = first :: rest → posted.getLast? = some last →
        first.stamp + rest.length * m.minIntervalSec ≤ last.stamp := by
  intro d attempts posted
  have hbalanced : Balanced d := by
    refine balanced_run (fun channel => ?_) ops
    rw [hfresh, ite_self]
    rfl
  obtain ⟨all, hattempts, hposted, hsub⟩ := posted_run { manager := m } ops
  rw [List.nil_append] at hattempts hposted
  have hdebounce : posted = debounce m.minIntervalSec Attempt.reading Attempt.stamp
      (some ((m.lastSent channel).getD 0)) attempts := by
    rw [show posted = _ from congrArg _ hposted, filter_throttle,
      show attempts = _ from congrArg _ hattempts]
    rfl
  have hordered : InOrder Attempt.reading Attempt.stamp attempts := by
    have hops : InOrder Prod.fst Prod.snd (ops.map fun op => (op.reading, op.stamp)) :=
      ⟨fun c hc => ?_, List.pairwise_map.mpr hclock.after⟩
    · have hall := inOrder_map (hops.sublist hsub)
      rw [← hattempts] at hall
      exact hall.sublist List.filter_sublist
    · obtain ⟨op, hop, rfl⟩ := List.mem_map.mp hc
      exact hclock.stamped op hop
  have hspaced : Spaced m.minIntervalSec Attempt.stamp posted := by
    rw [hdebounce]
    exact debounce_spaced hordered
  refine ⟨?_, hdebounce, hspaced, ?_⟩
  · have hconfig : d.manager.enabledChannels = m.enabledChannels := run_enabledChannels _ _
    rw [← hconfig]
    exact hbalanced channel
  · intro first rest last hcons hlast
    rw [hcons] at hspaced hlast
    rw [← nsmul_eq_mul]
    exact hspaced.span hlast

theorem deliveries_spaced_repeated :
    let d := run { manager := { genericWebhook := "hook" } } repeatedWarning
    Spaced 60 Attempt.stamp (d.posted.filter fun a => a.channel = "generic") ∧
      d.posted.length = 2 :=
  ⟨(@deliveries_spaced { genericWebhook := "hook" } rfl _ inOrder_repeatedWarning "generic").2.2.1,
    by decide +kernel⟩

end Dispatch

end Prodinamik.Alerts
