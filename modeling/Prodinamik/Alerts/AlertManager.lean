import Mathlib.Data.Rat.Defs
import Mathlib.Algebra.Order.Ring.Rat
import Prodinamik.Lib.Throttle

namespace Prodinamik.Alerts

open Lib.Throttle

inductive Level
  | critical
  | warning
  | info
  deriving DecidableEq, Repr

namespace Level

def value : Level → String
  | critical => "critical"
  | warning => "warning"
  | info => "info"

/-- The assertion of an alert: there are three levels. -/
def ofValue (text : String) : Option Level :=
  if text = "critical" then some critical
  else if text = "warning" then some warning
  else if text = "info" then some info
  else none

def severityOrder : Level → Nat
  | critical => 0
  | warning => 1
  | info => 2

theorem ofValue_eq_some {text : String} {level : Level} :
    ofValue text = some level ↔ text = level.value := by
  constructor
  · intro h
    rw [ofValue] at h
    split at h
    · cases h; assumption
    split at h
    · cases h; assumption
    split at h
    · cases h; assumption
    · cases h
  · rintro rfl
    cases level <;> rfl

theorem value_injective : Function.Injective value := by
  intro a b h
  cases a <;> cases b <;> first | rfl | exact absurd h (by decide)

theorem notMem_value (level : Level) : ':' ∉ level.value.toList := by
  cases level <;> decide

end Level

structure Alert where
  level : Level
  title : String
  message : String
  source : String
  timestamp : String
  deriving DecidableEq, Repr

/-- The key that alerts are told apart by. -/
def Alert.dedupKey (a : Alert) : String := a.level.value ++ ":" ++ a.title

structure AlertManager where
  slackWebhook : String := ""
  telegramToken : String := ""
  telegramChatId : String := ""
  genericWebhook : String := ""
  minIntervalSec : Rat := 60
  dedupWindowSec : Rat := 300
  history : List Alert := []
  lastSent : String → Option Rat := fun _ => none
  dedupCache : String → Option Rat := fun _ => none

namespace AlertManager

def enabledChannels (m : AlertManager) : List String :=
  (if m.slackWebhook ≠ "" then ["slack"] else []) ++
    (if m.telegramToken ≠ "" ∧ m.telegramChatId ≠ "" then ["telegram"] else []) ++
    if m.genericWebhook ≠ "" then ["generic"] else []

/-- What happens under the lock when an alert comes in, with the two readings of
the clock, and the deliveries that are started: one for each channel. -/
def record (m : AlertManager) (alert : Alert) (reading stamp : Rat) :
    AlertManager × List (String × Alert) :=
  if admits m.dedupWindowSec (m.dedupCache alert.dedupKey) reading then
    ({ m with
      dedupCache := Function.update m.dedupCache alert.dedupKey (some stamp)
      history := m.history ++ [alert] },
      m.enabledChannels.map fun channel => (channel, alert))
  else (m, [])

/-- A level of no known name raises an AssertionError. -/
def sendAlert (m : AlertManager) (level title message source timestamp : String)
    (reading stamp : Rat) : Option (AlertManager × List (String × Alert)) :=
  (Level.ofValue level).map fun level =>
    m.record ⟨level, title, message, source, timestamp⟩ reading stamp

/-- Whether a delivery goes on to post its alert. A channel that nothing was sent on
counts as used at the time 0. -/
def deliver (m : AlertManager) (channel : String) (reading stamp : Rat) : AlertManager × Bool :=
  if admits m.minIntervalSec (some ((m.lastSent channel).getD 0)) reading then
    ({ m with lastSent := Function.update m.lastSent channel (some stamp) }, true)
  else (m, false)

/-- The newest alerts of a severity. One is found even when the limit is zero. -/
def recent (m : AlertManager) (limit : Int) (minLevel : Level) : List Alert :=
  let rec scan : List Alert → List Alert → List Alert
    | [], found => found
    | a :: rest, found =>
        if a.level.severityOrder ≤ minLevel.severityOrder then
          if limit ≤ (found ++ [a]).length then found ++ [a] else scan rest (found ++ [a])
        else scan rest found
  scan m.history.reverse []

/-- An entry of a webhook of Alertmanager, with what is missing as none. -/
structure WebhookAlert where
  severity : Option String := none
  alertname : Option String := none
  summary : Option String := none
  description : Option String := none
  status : Option String := none

/-- The call that an entry makes when it is firing. -/
def WebhookAlert.call (w : WebhookAlert) : Option (String × String × String × String) :=
  if w.status.getD "firing" = "firing" then
    some (w.severity.getD "info", "[Alertmanager] " ++ w.summary.getD (w.alertname.getD "Unknown"),
      w.description.getD "", "alertmanager")
  else none

/-- The webhook's entries with the time, the readings of the clock of each call and
whether the last one was reached. -/
def handleAlertmanagerWebhook (m : AlertManager) :
    List (WebhookAlert × String × Rat × Rat) → AlertManager × List (String × Alert) × Bool
  | [] => (m, [], true)
  | (w, timestamp, reading, stamp) :: rest =>
    match w.call with
    | none => m.handleAlertmanagerWebhook rest
    | some (level, title, message, source) =>
      match m.sendAlert level title message source timestamp reading stamp with
      | none => (m, [], false)
      | some (m, started) =>
          let (m, later, reached) := m.handleAlertmanagerWebhook rest
          (m, started ++ later, reached)

theorem scan_recent (limit : Int) (minLevel : Level) (l found : List Alert)
    (h : (found.length : Int) < max limit 1) : recent.scan limit minLevel l found = found ++
      (l.filter fun a => a.level.severityOrder ≤ minLevel.severityOrder).take
        ((max limit 1).toNat - found.length) := by
  induction l generalizing found with
  | nil => simp [recent.scan]
  | cons a l ih =>
      rw [recent.scan]
      split
      case isTrue hsevere =>
        rw [List.filter_cons_of_pos (by simpa using hsevere)]
        obtain ⟨k, hk⟩ : ∃ k, (max limit 1).toNat - found.length = k + 1 :=
          Nat.exists_eq_succ_of_ne_zero (by omega)
        rw [hk, List.take_succ_cons, List.length_append, List.length_singleton]
        split
        case isTrue hfull =>
          have hzero : k = 0 := by omega
          rw [hzero, List.take_zero]
        case isFalse hfull =>
          rw [ih _ (by rw [List.length_append, List.length_singleton]; omega), List.append_assoc,
            List.length_append, List.length_singleton]
          have hless : (max limit 1).toNat - (found.length + 1) = k := by omega
          rw [hless]
          rfl
      case isFalse hmild =>
        rw [List.filter_cons_of_neg (by simpa using hmild)]
        exact ih found h

/-- The last of the severe enough ones come first, and a limit below one counts as one. -/
theorem recent_eq (m : AlertManager) (limit : Int) (minLevel : Level) :
    m.recent limit minLevel = (m.history.reverse.filter fun a =>
      a.level.severityOrder ≤ minLevel.severityOrder).take (max limit 1).toNat := by
  rw [recent, scan_recent _ _ _ _ (by simp), List.nil_append, List.length_nil, Nat.sub_zero]

end AlertManager

end Prodinamik.Alerts
