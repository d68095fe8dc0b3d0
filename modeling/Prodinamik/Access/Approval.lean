import Prodinamik.Access.HumanControl
import Prodinamik.Lib.Run

namespace Prodinamik.Access

open Lib.Run

namespace PauseReason

def value : PauseReason → String
  | humanReview => "human_review"
  | budgetExceeded => "budget_exceeded"
  | errorThreshold => "error_threshold"
  | manual => "manual"
  | security => "security"

end PauseReason

namespace PausedTask

/-- Times are in microseconds. -/
def ageSeconds (p : PausedTask) (now : Int) : Rat := (now - p.pausedAt : Int) / 1000000

def isStale (p : PausedTask) (now : Int) : Bool :=
  match p.autoApproveTimeout with
  | none => false
  | some timeout => timeout ≠ 0 && p.ageSeconds now > timeout

/-- What a record keeps from its pause on. -/
def origin (p : PausedTask) : PausedTask :=
  { taskId := p.taskId, reason := p.reason, pausedAt := p.pausedAt, goal := p.goal,
    error := p.error, autoApproveTimeout := p.autoApproveTimeout }

end PausedTask

/-- The arguments of pause_task. -/
structure Pause where
  taskId : String
  reason : PauseReason := .humanReview
  feedback : String := ""
  goal : String := ""
  error : String := ""
  autoApproveTimeout : Option Rat := none
  now : Int
  deriving DecidableEq, Repr

namespace Pause

/-- A timeout of 0 counts as none, and the gate's own one stands for it. -/
def record (gateTimeout : Option Rat) (c : Pause) : PausedTask where
  taskId := c.taskId
  reason := c.reason
  pausedAt := c.now
  feedback := .text c.feedback
  goal := c.goal
  error := c.error
  autoApproveTimeout := if c.autoApproveTimeout = some 0 then gateTimeout else
    c.autoApproveTimeout.or gateTimeout

def entry (c : Pause) : ActionLog where
  action := "pause"
  taskId := c.taskId
  user := .text "system"
  detail := .text ("Paused: " ++ c.reason.value ++ " — " ++
    String.ofList ((if c.error ≠ "" then c.error else c.feedback).toList.take 100))
  timestamp := c.now

end Pause

namespace ApprovalGate

/-- The items of the dict of paused tasks, in its order. -/
def items (g : ApprovalGate) : List (Sigma fun _ : String => PausedTask) := g.paused.entries.reverse

def getPaused (g : ApprovalGate) : List PausedTask :=
  (g.items.map Sigma.snd).filter fun p => p.approvalStatus = .pending

/-- A key that is there keeps its place in the dict. -/
def pauseTask (gateTimeout : Option Rat) (g : ApprovalGate) (c : Pause) : ApprovalGate :=
  { g with
    paused :=
      if c.taskId ∈ g.paused then g.paused.replace c.taskId (c.record gateTimeout)
      else g.paused.insert c.taskId (c.record gateTimeout)
    auditLog := g.auditLog ++ [c.entry] }

def timedOut (now : Int) (p : PausedTask) : PausedTask :=
  { p with approvalStatus := .timeoutAuto, resumedAt := some now }

/-- One task of the loop in auto_approve_stale. -/
def autoApprove (now : Int) (s : ApprovalGate × List String)
    (item : Sigma fun _ : String => PausedTask) : ApprovalGate × List String :=
  if item.2.isStale now then
    ({ s.1 with
        paused := s.1.paused.erase item.1
        resolved := s.1.resolved ++ [timedOut now item.2] },
      s.2 ++ [item.1])
  else s

def autoApproveStale (g : ApprovalGate) (now : Int) : ApprovalGate × List String :=
  g.items.foldl (autoApprove now) (g, [])

end ApprovalGate

/-- The calls that change the paused tasks. -/
inductive GateCall
  | pauseTask (c : Pause)
  | resolveTask (v : Verdict) (taskId userId feedback : String) (now : Int)
  | autoApproveStale (now : Int)
  deriving DecidableEq, Repr

def ApprovalGate.call (gateTimeout : Option Rat) (g : ApprovalGate) : GateCall → ApprovalGate
  | .pauseTask c => g.pauseTask gateTimeout c
  | .resolveTask v taskId userId feedback now =>
      (g.resolveTask v taskId (.text userId) (.text feedback) now).getD g
  | .autoApproveStale now => (g.autoApproveStale now).1

/-- The record that a call makes. -/
def GateCall.records (gateTimeout : Option Rat) : GateCall → List PausedTask
  | .pauseTask c => [c.record gateTimeout]
  | .resolveTask .. => []
  | .autoApproveStale _ => []

/-- A gate with the records that its pauses have made. -/
structure GateHistory where
  gate : ApprovalGate := {}
  pauses : List PausedTask := []

namespace GateHistory

variable (gateTimeout : Option Rat)

def call (h : GateHistory) (c : GateCall) : GateHistory :=
  ⟨h.gate.call gateTimeout c, h.pauses ++ c.records gateTimeout⟩

def ofTask (taskId : String) (records : List PausedTask) : List PausedTask :=
  records.filter fun p => p.taskId = taskId

def trail (taskId : String) (log : List ActionLog) : List Bool :=
  (log.filter fun e => e.taskId = taskId).map fun e => e.action = "pause"

/-- Of each task the records of all its pauses are, in their order, those that
are resolved and then the one that is pending, and its trail tells first of
each resolved one's pause and then of its resolving. -/
structure Conserved (h : GateHistory) : Prop where
  records : ∀ t, (ofTask t h.pauses).map PausedTask.origin =
    (ofTask t h.gate.resolved ++ ofTask t h.gate.getPaused).map PausedTask.origin
  settled : ∀ p ∈ h.gate.resolved, p.approvalStatus ≠ .pending
  audit : ∀ t, trail t h.gate.auditLog = ((ofTask t h.gate.resolved).flatMap fun _ => [true, false]) ++
    (ofTask t h.gate.getPaused).map fun _ => true

/-- No pause of a task that is paused already, and none that is stale when the
automatic approval runs. -/
def Once (h : GateHistory) : GateCall → Prop
  | .pauseTask c => c.taskId ∉ h.gate.paused
  | .resolveTask .. => True
  | .autoApproveStale now => ∀ item ∈ h.gate.paused.entries, ¬ item.2.isStale now

end GateHistory

namespace ApprovalGate

/-- Every record stands under its own task and waits. -/
def Keyed (g : ApprovalGate) : Prop :=
  ∀ item ∈ g.paused.entries, item.2.taskId = item.1 ∧ item.2.approvalStatus = .pending

theorem Keyed.of_subset {g g' : ApprovalGate} (h : g.Keyed)
    (hsub : g'.paused.entries ⊆ g.paused.entries) : g'.Keyed :=
  fun item hitem => h item (hsub hitem)

theorem mem_kreplace {a : String} {b : PausedTask} {l : List (Sigma fun _ : String => PausedTask)}
    {item : Sigma fun _ : String => PausedTask} (h : item ∈ List.kreplace a b l) :
    item = ⟨a, b⟩ ∨ item ∈ l := by
  induction l with
  | nil => cases h
  | cons head rest ih =>
      rw [List.kreplace, List.lookmap_cons] at h
      split at h
      case h_1 =>
        rcases List.mem_cons.mp h with h | h
        · exact .inr (h ▸ List.mem_cons_self)
        · exact (ih h).imp_right (List.mem_cons_of_mem _)
      case h_2 c hc =>
        split at hc
        · cases hc
          exact (List.mem_cons.mp h).imp_right (List.mem_cons_of_mem _)
        · cases hc

theorem Keyed.pauseTask {g : ApprovalGate} (h : g.Keyed) (gateTimeout : Option Rat) (c : Pause) :
    (g.pauseTask gateTimeout c).Keyed := by
  intro item hitem
  rw [ApprovalGate.pauseTask] at hitem
  have hcase : item = ⟨c.taskId, c.record gateTimeout⟩ ∨ item ∈ g.paused.entries := by
    dsimp only at hitem
    split at hitem
    · exact mem_kreplace hitem
    · exact (List.mem_cons.mp hitem).imp_right fun h => (List.kerase_sublist _ _).subset h
  rcases hcase with rfl | hold
  · exact ⟨rfl, rfl⟩
  · exact h item hold

theorem map_snd_filter (t : String) (l : List (Sigma fun _ : String => PausedTask)) :
    (l.filter fun item => item.1 = t).map Sigma.snd = l.lookupAll t := by
  induction l with
  | nil => rfl
  | cons item rest ih =>
      obtain ⟨key, p⟩ := item
      by_cases hkey : key = t
      · subst hkey
        rw [List.lookupAll_cons_eq, List.filter_cons_of_pos (by simp), List.map_cons, ih]
      · rw [List.lookupAll_cons_ne _ _ (Ne.symm hkey), List.filter_cons_of_neg (by simpa), ih]

theorem ofTask_getPaused {g : ApprovalGate} (h : g.Keyed) (t : String) :
    GateHistory.ofTask t g.getPaused = (g.paused.lookup t).toList := by
  have hwait : g.getPaused = g.items.map Sigma.snd := by
    refine List.filter_eq_self.mpr fun p hp => ?_
    obtain ⟨item, hitem, rfl⟩ := List.mem_map.mp hp
    exact decide_eq_true (h item (List.mem_reverse.mp hitem)).2
  have hkey : (g.items.filter fun item => item.2.taskId = t) =
      g.items.filter fun item => item.1 = t := by
    refine List.filter_congr fun item hitem => ?_
    rw [(h item (List.mem_reverse.mp hitem)).1]
  rw [hwait, GateHistory.ofTask, List.filter_map, Function.comp_def, hkey, items,
    List.filter_reverse, List.map_reverse, map_snd_filter,
    List.lookupAll_eq_dlookup t g.paused.nodupKeys]
  cases hp : g.paused.entries.dlookup t <;> simp [AList.lookup, hp]

theorem foldl_autoApprove (now : Int) (l : List (Sigma fun _ : String => PausedTask))
    (s : ApprovalGate × List String) :
    (l.foldl (autoApprove now) s).1.paused.entries ⊆ s.1.paused.entries ∧
      (l.foldl (autoApprove now) s).1.auditLog = s.1.auditLog ∧
      (l.foldl (autoApprove now) s).1.resolved = s.1.resolved ++
        (l.filter fun item => item.2.isStale now).map fun item => timedOut now item.2 := by
  induction l generalizing s with
  | nil => simp
  | cons item rest ih =>
      rw [List.foldl_cons]
      obtain ⟨hpaused, hlog, hresolved⟩ := ih (autoApprove now s item)
      rw [hlog, hresolved]
      by_cases hstale : item.2.isStale now = true
      · rw [List.filter_cons, if_pos hstale]
        simp only [autoApprove, hstale, if_true] at hpaused ⊢
        exact ⟨fun x hx => (List.kerase_sublist _ _).subset (hpaused hx), trivial, by simp⟩
      · rw [List.filter_cons, if_neg hstale]
        simp only [autoApprove, hstale] at hpaused ⊢
        exact ⟨hpaused, rfl, rfl⟩

theorem autoApproveStale_of_none {g : ApprovalGate} {now : Int}
    (h : ∀ item ∈ g.paused.entries, ¬ item.2.isStale now) : (g.autoApproveStale now).1 = g := by
  have hloop : ∀ l ⊆ g.paused.entries, ∀ s, l.foldl (autoApprove now) s = s := by
    intro l hl s
    induction l with
    | nil => rfl
    | cons item rest ih =>
        rw [List.foldl_cons, autoApprove, if_neg (h item (hl List.mem_cons_self))]
        exact ih fun x hx => hl (List.mem_cons_of_mem _ hx)
  rw [autoApproveStale, hloop g.items fun x hx => List.mem_reverse.mp hx]

theorem Keyed.call {g : ApprovalGate} (hk : g.Keyed) (gateTimeout : Option Rat) (c : GateCall) :
    (g.call gateTimeout c).Keyed := by
  cases c with
  | pauseTask c => exact hk.pauseTask gateTimeout c
  | resolveTask v t user feedback now =>
      rw [ApprovalGate.call, ApprovalGate.resolveTask]
      cases hp : g.paused.lookup t with
      | none => exact hk
      | some p => exact hk.of_subset (List.kerase_sublist _ _).subset
  | autoApproveStale now => exact hk.of_subset (foldl_autoApprove now _ _).1

end ApprovalGate

namespace GateHistory

variable {gateTimeout : Option Rat} {h : GateHistory}

theorem ofTask_append (t : String) (ps qs : List PausedTask) :
    ofTask t (ps ++ qs) = ofTask t ps ++ ofTask t qs := List.filter_append ..

theorem ofTask_singleton (t : String) (p : PausedTask) :
    ofTask t [p] = if p.taskId = t then [p] else [] := by
  by_cases hp : p.taskId = t <;> simp [ofTask, hp]

theorem trail_append (t : String) (log : List ActionLog) (e : ActionLog) :
    trail t (log ++ [e]) =
      trail t log ++ if e.taskId = t then [decide (e.action = "pause")] else [] := by
  by_cases he : e.taskId = t <;> simp [trail, he]

/-- The law, with what is pending of a task read by its key. -/
theorem conserved_iff (hk : h.gate.Keyed) :
    h.Conserved ↔
      (∀ t, (ofTask t h.pauses).map PausedTask.origin =
        (ofTask t h.gate.resolved ++ (h.gate.paused.lookup t).toList).map PausedTask.origin) ∧
      (∀ p ∈ h.gate.resolved, p.approvalStatus ≠ .pending) ∧
      ∀ t, trail t h.gate.auditLog = ((ofTask t h.gate.resolved).flatMap fun _ => [true, false]) ++
        (h.gate.paused.lookup t).toList.map fun _ => true := by
  constructor
  · rintro ⟨hrecords, hsettled, haudit⟩
    refine ⟨fun t => ?_, hsettled, fun t => ?_⟩
    · rw [← ApprovalGate.ofTask_getPaused hk, hrecords]
    · rw [← ApprovalGate.ofTask_getPaused hk, haudit]
  · rintro ⟨hrecords, hsettled, haudit⟩
    refine ⟨fun t => ?_, hsettled, fun t => ?_⟩
    · rw [ApprovalGate.ofTask_getPaused hk, hrecords]
    · rw [ApprovalGate.ofTask_getPaused hk, haudit]

theorem lookup_paused_pauseTask {g : ApprovalGate} {c : Pause} (hnew : c.taskId ∉ g.paused)
    (t : String) :
    (g.pauseTask gateTimeout c).paused.lookup t =
      if c.taskId = t then some (c.record gateTimeout) else g.paused.lookup t := by
  rw [ApprovalGate.pauseTask]
  dsimp only
  rw [if_neg hnew]
  by_cases ht : c.taskId = t
  · subst ht
    rw [if_pos rfl, AList.lookup_insert]
  · rw [if_neg ht, AList.lookup_insert_ne (Ne.symm ht)]

theorem Conserved.pauseTask (hk : h.gate.Keyed) (hc : h.Conserved) (c : Pause)
    (hnew : c.taskId ∉ h.gate.paused) : (h.call gateTimeout (.pauseTask c)).Conserved := by
  obtain ⟨hrecords, hsettled, haudit⟩ := (conserved_iff hk).mp hc
  have hnone := AList.lookup_eq_none.mpr hnew
  refine (conserved_iff (hk.call _ _)).mpr ⟨fun t => ?_, hsettled, fun t => ?_⟩
  · rw [call, ApprovalGate.call, GateCall.records, lookup_paused_pauseTask hnew, ofTask_append, List.map_append, hrecords,
      ofTask_singleton]
    by_cases ht : c.taskId = t
    · subst ht
      simp [hnone, Pause.record, ApprovalGate.pauseTask]
    · simp [ht, Pause.record, ApprovalGate.pauseTask]
  · rw [call, ApprovalGate.call, GateCall.records, lookup_paused_pauseTask hnew, ApprovalGate.pauseTask, trail_append, haudit]
    by_cases ht : c.taskId = t
    · subst ht
      simp [hnone, Pause.entry]
    · simp [ht, Pause.entry]

theorem Conserved.resolveTask (hk : h.gate.Keyed) (hc : h.Conserved) (v : Verdict)
    (taskId userId feedback : String) (now : Int) :
    (h.call gateTimeout (.resolveTask v taskId userId feedback now)).Conserved := by
  have hk' : (h.call gateTimeout (.resolveTask v taskId userId feedback now)).gate.Keyed :=
    hk.call _ _
  cases hp : h.gate.paused.lookup taskId with
  | none => simpa [call, ApprovalGate.call, GateCall.records, ApprovalGate.resolveTask, hp] using hc
  | some p =>
      obtain ⟨hrecords, hsettled, haudit⟩ := (conserved_iff hk).mp hc
      have htask : p.taskId = taskId := (hk ⟨taskId, p⟩ (AList.mem_lookup_iff.mp hp)).1
      have hresolved : (p.resolve v (.text userId) (.text feedback) now).taskId = taskId := by
        cases v <;> exact htask
      have horigin : (p.resolve v (.text userId) (.text feedback) now).origin = p.origin := by
        cases v <;> rfl
      have hstatus : (p.resolve v (.text userId) (.text feedback) now).approvalStatus ≠ .pending := by
        cases v <;> simp [PausedTask.resolve]
      have haction : v.action ≠ "pause" := by cases v <;> decide
      have hcall : (h.call gateTimeout (.resolveTask v taskId userId feedback now)).gate =
          { paused := h.gate.paused.erase taskId
            resolved := h.gate.resolved ++ [p.resolve v (.text userId) (.text feedback) now]
            auditLog := h.gate.auditLog ++
              [⟨v.action, taskId, .text userId, .text feedback, now⟩] } := by
        simp [call, ApprovalGate.call, ApprovalGate.resolveTask, hp]
      refine (conserved_iff hk').mpr ⟨fun t => ?_, ?_, fun t => ?_⟩
      · rw [hcall, ofTask_append, ofTask_singleton, hresolved]
        dsimp only
        by_cases ht : taskId = t
        · subst ht
          simp [call, GateCall.records, hrecords, hp, horigin]
        · simp [call, GateCall.records, hrecords, AList.lookup_erase_ne (Ne.symm ht), ht]
      · rw [hcall]
        intro q hq
        rcases List.mem_append.mp hq with hq | hq
        · exact hsettled q hq
        · exact List.mem_singleton.mp hq ▸ hstatus
      · rw [hcall, ofTask_append, ofTask_singleton, hresolved, trail_append, haudit]
        dsimp only
        by_cases ht : taskId = t
        · subst ht
          simp [hp, haction]
        · simp [AList.lookup_erase_ne (Ne.symm ht), ht]

theorem Conserved.once_pauseTask (hk : h.gate.Keyed) (hc : h.Conserved) {c : Pause}
    (hcall : (h.call gateTimeout (.pauseTask c)).Conserved) : c.taskId ∉ h.gate.paused := by
  intro hmem
  obtain ⟨p, hp⟩ := Option.isSome_iff_exists.mp (AList.lookup_isSome.mpr hmem)
  have hbefore := congrArg List.length (((conserved_iff hk).mp hc).1 c.taskId)
  have hafter := congrArg List.length
    (((conserved_iff (hk.call _ (.pauseTask c))).mp hcall).1 c.taskId)
  have hone : (h.gate.paused.lookup c.taskId).toList.length = 1 := by rw [hp]; rfl
  have hmost : ((h.gate.pauseTask gateTimeout c).paused.lookup c.taskId).toList.length ≤ 1 := by
    cases (h.gate.pauseTask gateTimeout c).paused.lookup c.taskId <;> simp
  have htask : ofTask c.taskId [c.record gateTimeout] = [c.record gateTimeout] := by
    exact (ofTask_singleton ..).trans (if_pos rfl)
  rw [call, ApprovalGate.call, GateCall.records] at hafter
  dsimp only at hafter
  rw [ofTask_append, htask] at hafter
  simp only [List.length_map, List.length_append, List.length_singleton] at hbefore hafter
  have hsame : (h.gate.pauseTask gateTimeout c).resolved = h.gate.resolved := rfl
  rw [hsame] at hafter
  omega

theorem count_trail (hk : h.gate.Keyed) (hc : h.Conserved) (t : String) :
    (trail t h.gate.auditLog).count false = (ofTask t h.gate.resolved).length := by
  rw [((conserved_iff hk).mp hc).2.2 t, List.count_append, List.count_flatMap]
  cases h.gate.paused.lookup t <;> simp [Function.comp_def]

theorem Conserved.once_autoApproveStale (hk : h.gate.Keyed) (hc : h.Conserved) {now : Int}
    (hcall : (h.call gateTimeout (.autoApproveStale now)).Conserved) :
    ∀ item ∈ h.gate.paused.entries, ¬ item.2.isStale now := by
  intro item hitem hstale
  obtain ⟨-, hlog, hresolved⟩ := ApprovalGate.foldl_autoApprove now h.gate.items (h.gate, [])
  have hbefore := count_trail hk hc item.1
  have hafter := count_trail (hk.call gateTimeout (.autoApproveStale now)) hcall item.1
  rw [call, ApprovalGate.call, ApprovalGate.autoApproveStale] at hafter
  dsimp only at hafter hlog hresolved
  rw [hlog, hresolved, ofTask_append, List.length_append, hbefore] at hafter
  have hmem : ApprovalGate.timedOut now item.2 ∈ ofTask item.1
      ((h.gate.items.filter fun item => item.2.isStale now).map fun item =>
        ApprovalGate.timedOut now item.2) := by
    refine List.mem_filter.mpr ⟨List.mem_map.mpr ⟨item, ?_, rfl⟩, decide_eq_true (hk item hitem).1⟩
    exact List.mem_filter.mpr ⟨List.mem_reverse.mpr hitem, hstale⟩
  have hpos := List.length_pos_of_mem hmem
  omega

/-- Of any calls the pauses are conserved all along exactly where no pause
meets a paused task and the automatic approval finds nothing. -/
theorem pauses_conserved (calls : List GateCall) :
    Always (call gateTimeout) Conserved {} calls ↔ Steps (call gateTimeout) Once {} calls := by
  have hkeyed : ApprovalGate.Keyed {} := by
    intro item hitem
    cases hitem
  have hempty : Conserved {} := ⟨fun t => rfl, by simp, fun t => rfl⟩
  refine along_iff_steps (fun h => h.gate.Keyed) (fun h c hk => hk.call _ c)
    (fun h c hk hc => ?_) hkeyed hempty calls
  rw [and_true]
  cases c with
  | pauseTask c => exact ⟨hc.once_pauseTask hk, hc.pauseTask hk c⟩
  | resolveTask v t user feedback now =>
      exact iff_of_true (hc.resolveTask hk v t user feedback now) trivial
  | autoApproveStale now =>
      refine ⟨hc.once_autoApproveStale hk, fun hfresh => ?_⟩
      rw [call, ApprovalGate.call, ApprovalGate.autoApproveStale_of_none hfresh, GateCall.records,
        List.append_nil]
      exact hc

/-- The first of two pauses of one task is neither pending nor resolved, and an
automatic approval leaves no trail. -/
theorem pauses_lost :
    ¬ Always (call none) Conserved {}
        [.pauseTask { taskId := "t", now := 0 }, .pauseTask { taskId := "t", now := 1 }] ∧
      ¬ Always (call (some 1)) Conserved {}
        [.pauseTask { taskId := "t", now := 0 }, .autoApproveStale 1000001] := by
  constructor
  · rintro ⟨-, -, -, -, hlast⟩
    have hrecords := hlast.records "t"
    revert hrecords
    decide
  · rintro ⟨-, -, -, -, hlast⟩
    have haudit := hlast.audit "t"
    revert haudit
    decide +kernel

end GateHistory
end Prodinamik.Access
