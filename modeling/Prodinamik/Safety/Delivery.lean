import Mathlib.Data.List.Count
import Mathlib.Data.List.Perm.Basic
import Prodinamik.Lib.Run
import Prodinamik.Safety.Soundness

namespace Prodinamik.Safety

open Lib.Run

variable {H : Type}

namespace RuntimeSafetyMonitor

theorem takeAction_context {loopRunning : Bool} {action : String} {k k' : Checked H}
    (hreset : action ≠ "bus_reset") (h : takeAction loopRunning action k = .ok k') :
    k'.context = k.context := by
  rw [takeAction] at h
  split at h
  · split at h
    · cases h
      rfl
    · cases h
  · cases h
    rfl

/-- Only the reset of the bus changes what the next checks are given. -/
theorem checkOne_context {loopRunning : Bool} {timestamp : String} {k : Checked H}
    {i : Invariant H} (hreset : i.action ≠ "bus_reset") :
    (checkOne loopRunning timestamp k i).context = k.context := by
  rw [checkOne]
  split
  · rfl
  · rfl
  · simp only
    split
    · rfl
    · rename_i k' hk'
      exact (takeAction_context hreset hk').trans rfl

theorem foldl_context {loopRunning : Bool} {timestamp : String} {k : Checked H}
    {is : List (Invariant H)} (hreset : ∀ i ∈ is, i.action ≠ "bus_reset") :
    (is.foldl (checkOne loopRunning timestamp) k).context = k.context := by
  induction is generalizing k with
  | nil => rfl
  | cons i is ih =>
      exact (ih fun x hx => hreset x (List.mem_cons_of_mem _ hx)).trans
        (checkOne_context (hreset i List.mem_cons_self))

/-- check_all forgets the traces of a bus that has a warning. -/
theorem checkAll_bus (m : RuntimeSafetyMonitor) (loopRunning : Bool) (c : Context H)
    (timestamp : String) {b : EventBus H} (hbus : c.bus = some b) :
    (m.checkAll loopRunning c timestamp).2.context.bus =
      some (if b.hasCycles then b.clearTraces else b) := by
  have hothers : ∀ i ∈ (Invariant.all : List (Invariant H)).dropLast, i.action ≠ "bus_reset" := by
    have hactions : (Invariant.all : List (Invariant H)).dropLast.map Invariant.action =
        ["pause", "pause", "pause", "block", "degrade_survival", "compact", "compact", "notify",
          "escalate"] := rfl
    intro i hi haction
    have hmem := List.mem_map_of_mem (f := Invariant.action) hi
    rw [hactions, haction] at hmem
    exact absurd hmem (by decide)
  have hall : (Invariant.all : List (Invariant H)) =
      Invariant.all.dropLast ++ [Invariant.crossProfileNoCycle] := rfl
  rw [checkAll, hall, List.foldl_append, List.foldl_cons, List.foldl_nil]
  have hcontext := @foldl_context H loopRunning timestamp { context := c } _ hothers
  generalize (Invariant.all.dropLast.foldl (checkOne loopRunning timestamp) { context := c }) = k
    at hcontext ⊢
  have hsupplied : Invariant.crossProfileNoCycle.Supplied k.context := by
    intro name hname
    rw [List.mem_singleton.mp hname, hcontext]
    change c.bus.isSome = true
    rw [hbus]
    rfl
  have hcheck : Invariant.crossProfileNoCycle.callWithContext k.context = .ok (!b.hasCycles) := by
    rw [Invariant.callWithContext_of_supplied hsupplied, hcontext]
    have hgiven : (Arguments.ofContext c).bus = some b := hbus
    simp only [Invariant.crossProfileNoCycle, hgiven]
  rw [checkOne, hcheck]
  cases b.hasCycles with
  | true =>
      change k.context.bus.map _ = _
      rw [hcontext, hbus]
      rfl
  | false =>
      change k.context.bus = _
      rw [hcontext, hbus]
      rfl

end RuntimeSafetyMonitor

/-- What is emitted on the bus, checked on it and done by the event loop, in any order. -/
inductive BusCall (H : Type)
  | emit (e : BusEvent) (timestamp : String)
  | checkAll (m : RuntimeSafetyMonitor) (c : Context H) (timestamp : String)
  | turn (i : Nat) (timestamp : String)

/-- The bus, the calls of handlers that wait in the event loop and those that were made, and the
trace ids and types of the events emitted below the limit of hops. -/
structure BusRun (H : Type) where
  bus : EventBus H
  tasks : List (H × BusEvent) := []
  called : List (H × BusEvent) := []
  emitted : List (String × String) := []

def BusEvent.pair (e : BusEvent) : String × String := (e.traceId, e.type)

namespace BusRun

def start (subscribers : String → List H) : BusRun H where
  bus := { subscribers := subscribers }

-- which handlers raise, and with what text
variable (raises : H → BusEvent → Option String)

def step (s : BusRun H) : BusCall H → BusRun H
  | .emit e timestamp =>
      { bus := (s.bus.emit e timestamp).1
        tasks := s.tasks ++ (s.bus.emit e timestamp).2
        called := s.called
        emitted := if e.hopCount < EventBus.maxHops then e.pair :: s.emitted else s.emitted }
  | .checkAll m c timestamp =>
      let checked := (m.checkAll true { c with bus := some s.bus } timestamp).2
      { s with bus := checked.context.bus.getD s.bus }
  | .turn i timestamp =>
    match s.tasks[i]? with
    | none => s
    | some (handler, e) =>
        { s with
          bus := s.bus.safeCall (raises handler e) e timestamp
          tasks := s.tasks.eraseIdx i
          called := s.called ++ [(handler, e)] }

/-- All calls of handlers, those to come included. -/
def deliveries (s : BusRun H) : List (H × BusEvent) := s.called ++ s.tasks

variable [DecidableEq H]

/-- How often a handler is called for a trace id and a type. -/
def calls (s : BusRun H) (handler : H) (p : String × String) : Nat :=
  s.deliveries.countP fun x => x.1 = handler ∧ x.2.pair = p

/-- Every handler is called once for each trace id and type that were emitted below the limit of
hops, and for no event at it. -/
structure DeliversOnce (s : BusRun H) : Prop where
  once : ∀ p, ∀ handler ∈ s.bus.subscribers p.2,
    s.calls handler p = if p ∈ s.emitted then 1 else 0
  hops : ∀ x ∈ s.deliveries, x.2.hopCount < EventBus.maxHops

omit [DecidableEq H] in
/-- The bus remembers the event's text for the trace id and type exactly if they were emitted
before, and then no handler has subscribed twice. -/
def Remembered (s : BusRun H) : BusCall H → Prop
  | .emit e _ => e.hopCount < EventBus.maxHops → s.bus.subscribers e.type ≠ [] →
      (e.pair ∉ s.emitted ∧ e.traceKey ∉ s.bus.seenTraces ∧ (s.bus.subscribers e.type).Nodup) ∨
        (e.pair ∈ s.emitted ∧ e.traceKey ∈ s.bus.seenTraces)
  | _ => True

variable {raises} {s : BusRun H}

theorem start_once (subscribers : String → List H) : (start subscribers).DeliversOnce :=
  ⟨fun _ _ _ => rfl, fun _ hx => absurd hx List.not_mem_nil⟩

omit [DecidableEq H] in
theorem emit_subscribers (b : EventBus H) (e : BusEvent) (timestamp : String) :
    (b.emit e timestamp).1.subscribers = b.subscribers := by
  rw [EventBus.emit]
  split
  · rfl
  · split <;> rfl

omit [DecidableEq H] in
theorem emit_hops {b : EventBus H} {e : BusEvent} {timestamp : String}
    (h : ¬ e.hopCount < EventBus.maxHops) : (b.emit e timestamp).2 = [] := by
  rw [EventBus.emit, if_pos (not_lt.mp h)]

omit [DecidableEq H] in
theorem emit_seen {b : EventBus H} {e : BusEvent} {timestamp : String}
    (hhops : e.hopCount < EventBus.maxHops) (hseen : e.traceKey ∈ b.seenTraces) :
    (b.emit e timestamp).2 = [] := by
  rw [EventBus.emit, if_neg (not_le.mpr hhops), if_pos hseen]

omit [DecidableEq H] in
theorem emit_new {b : EventBus H} {e : BusEvent} {timestamp : String}
    (hhops : e.hopCount < EventBus.maxHops) (hseen : e.traceKey ∉ b.seenTraces) :
    (b.emit e timestamp).2 = (b.subscribers e.type).map fun handler => (handler, e) := by
  rw [EventBus.emit, if_neg (not_le.mpr hhops), if_neg hseen]

theorem calls_emit (e : BusEvent) (timestamp : String) (handler : H) (p : String × String) :
    (s.step raises (.emit e timestamp)).calls handler p = s.calls handler p +
      (s.bus.emit e timestamp).2.countP fun x => x.1 = handler ∧ x.2.pair = p := by
  rw [calls, calls, ← List.countP_append, deliveries, deliveries, List.append_assoc]
  rfl

/-- Handing an event to its handlers counts once for each subscription. -/
theorem countP_handlers (handlers : List H) (e : BusEvent) (handler : H) (p : String × String) :
    (handlers.map fun h => (h, e)).countP (fun x => x.1 = handler ∧ x.2.pair = p) =
      if e.pair = p then handlers.count handler else 0 := by
  rw [List.countP_map]
  split
  case isTrue h =>
    rw [List.count]
    refine List.countP_congr fun x _ => ?_
    simp [h]
  case isFalse h =>
    rw [List.countP_eq_zero]
    intro x _ hx
    exact h (of_decide_eq_true hx).2

omit [DecidableEq H] in
/-- A turn of the loop moves a call from those that wait to those made. -/
theorem deliveries_turn (i : Nat) (timestamp : String) :
    (s.step raises (.turn i timestamp)).deliveries.Perm s.deliveries := by
  rw [step]
  cases hi : s.tasks[i]? with
  | none => exact List.Perm.refl _
  | some x =>
      obtain ⟨hlt, hx⟩ := List.getElem?_eq_some_iff.mp hi
      have hperm := List.getElem_cons_eraseIdx_perm hlt
      rw [hx] at hperm
      have happend : ((s.called ++ [x]) ++ s.tasks.eraseIdx i).Perm (s.called ++ s.tasks) := by
        rw [List.append_assoc]
        exact hperm.append_left _
      exact happend

omit [DecidableEq H] in
theorem turn_subscribers (i : Nat) (timestamp : String) :
    (s.step raises (.turn i timestamp)).bus.subscribers = s.bus.subscribers ∧
      (s.step raises (.turn i timestamp)).emitted = s.emitted := by
  rw [step]
  cases s.tasks[i]? with
  | none => exact ⟨rfl, rfl⟩
  | some x =>
      refine ⟨?_, rfl⟩
      change (s.bus.safeCall (raises x.1 x.2) x.2 timestamp).subscribers = _
      cases raises x.1 x.2 <;> rfl

omit [DecidableEq H] in
theorem checkAll_subscribers (m : RuntimeSafetyMonitor) (c : Context H) (timestamp : String) :
    (s.step raises (.checkAll m c timestamp)).bus.subscribers = s.bus.subscribers := by
  rw [step]
  simp only [RuntimeSafetyMonitor.checkAll_bus m true { c with bus := some s.bus } timestamp rfl,
    Option.getD_some]
  split <;> rfl

/-- The calls that an event adds for a handler of its type. -/
def added (s : BusRun H) (e : BusEvent) (handler : H) : Nat :=
  if e.traceKey ∈ s.bus.seenTraces then 0 else (s.bus.subscribers e.type).count handler

theorem calls_added {e : BusEvent} (timestamp : String) (hhops : e.hopCount < EventBus.maxHops)
    (handler : H) (p : String × String) :
    (s.step raises (.emit e timestamp)).calls handler p =
      s.calls handler p + if e.pair = p then s.added e handler else 0 := by
  rw [calls_emit, added]
  by_cases hseen : e.traceKey ∈ s.bus.seenTraces
  · rw [emit_seen hhops hseen, if_pos hseen, ite_self]
    rfl
  · rw [emit_new hhops hseen, if_neg hseen, countP_handlers]

theorem step_emit_iff (h : s.DeliversOnce) {e : BusEvent} (timestamp : String)
    (hhops : e.hopCount < EventBus.maxHops) :
    (s.step raises (.emit e timestamp)).DeliversOnce ↔
      ∀ handler ∈ s.bus.subscribers e.type, s.calls handler e.pair + s.added e handler = 1 := by
  have hemitted : (s.step raises (.emit e timestamp)).emitted = e.pair :: s.emitted := if_pos hhops
  have hsubscribers : (s.step raises (.emit e timestamp)).bus.subscribers = s.bus.subscribers :=
    emit_subscribers _ _ _
  constructor
  · intro h' handler hhandler
    have honce := h'.once e.pair handler (by rw [hsubscribers]; exact hhandler)
    rwa [calls_added timestamp hhops, if_pos rfl, hemitted, if_pos List.mem_cons_self] at honce
  · intro hone
    constructor
    · intro p handler hhandler
      rw [hsubscribers] at hhandler
      rw [calls_added timestamp hhops, hemitted]
      by_cases hp : e.pair = p
      · subst hp
        rw [if_pos rfl, if_pos List.mem_cons_self, hone handler hhandler]
      · rw [if_neg hp, add_zero, h.once p handler hhandler]
        simp only [List.mem_cons, or_iff_right (Ne.symm hp)]
    · intro x hx
      have hmem : x ∈ s.deliveries ∨ x ∈ (s.bus.emit e timestamp).2 := by
        rw [deliveries, List.mem_append] at hx ⊢
        obtain hx | hx := hx
        · exact .inl (.inl hx)
        · exact (List.mem_append.mp hx).imp_left .inr
      obtain hx | hx := hmem
      · exact h.hops x hx
      · by_cases hseen : e.traceKey ∈ s.bus.seenTraces
        · rw [emit_seen hhops hseen] at hx
          exact absurd hx List.not_mem_nil
        · rw [emit_new hhops hseen] at hx
          obtain ⟨handler, -, rfl⟩ := List.mem_map.mp hx
          exact hhops

theorem remembered_iff (h : s.DeliversOnce) {e : BusEvent} (timestamp : String)
    (hhops : e.hopCount < EventBus.maxHops) :
    (∀ handler ∈ s.bus.subscribers e.type, s.calls handler e.pair + s.added e handler = 1) ↔
      s.Remembered (.emit e timestamp) := by
  have hcalls : ∀ handler ∈ s.bus.subscribers e.type,
      s.calls handler e.pair = if e.pair ∈ s.emitted then 1 else 0 := h.once e.pair
  have hsome : s.bus.subscribers e.type ≠ [] → ∃ handler, handler ∈ s.bus.subscribers e.type :=
    List.exists_mem_of_ne_nil _
  simp only [Remembered, hhops, true_implies]
  by_cases hemitted : e.pair ∈ s.emitted <;> by_cases hseen : e.traceKey ∈ s.bus.seenTraces
  · refine iff_of_true (fun handler hhandler => ?_) fun _ => .inr ⟨hemitted, hseen⟩
    rw [hcalls handler hhandler, if_pos hemitted, added, if_pos hseen]
  · constructor
    · intro hone hne
      obtain ⟨handler, hhandler⟩ := hsome hne
      have hcount := List.count_pos_iff.mpr hhandler
      have hlate := hone handler hhandler
      rw [hcalls handler hhandler, if_pos hemitted, added, if_neg hseen] at hlate
      omega
    · intro hremembered handler hhandler
      obtain ⟨hnew, -⟩ | ⟨-, hold⟩ := hremembered (List.ne_nil_of_mem hhandler)
      · exact absurd hemitted hnew
      · exact absurd hold hseen
  · constructor
    · intro hone hne
      obtain ⟨handler, hhandler⟩ := hsome hne
      have hlost := hone handler hhandler
      rw [hcalls handler hhandler, if_neg hemitted, added, if_pos hseen] at hlost
      cases hlost
    · intro hremembered handler hhandler
      obtain ⟨-, hfree, -⟩ | ⟨hold, -⟩ := hremembered (List.ne_nil_of_mem hhandler)
      · exact absurd hseen hfree
      · exact absurd hold hemitted
  · have hnew : ∀ handler ∈ s.bus.subscribers e.type,
        s.calls handler e.pair + s.added e handler = (s.bus.subscribers e.type).count handler := by
      intro handler hhandler
      rw [hcalls handler hhandler, if_neg hemitted, added, if_neg hseen, zero_add]
    constructor
    · intro hone _
      refine .inl ⟨hemitted, hseen, List.nodup_iff_count_eq_one.mpr fun handler hhandler => ?_⟩
      exact (hnew handler hhandler).symm.trans (hone handler hhandler)
    · intro hremembered handler hhandler
      rw [hnew handler hhandler]
      obtain ⟨-, -, hnodup⟩ | ⟨hold, -⟩ := hremembered (List.ne_nil_of_mem hhandler)
      · exact List.count_eq_one_of_mem hnodup hhandler
      · exact absurd hold hemitted

/-- What keeps the handlers, the deliveries and the events emitted keeps the property. -/
theorem deliversOnce_of_same {s' : BusRun H} (h : s.DeliversOnce)
    (hsubscribers : s'.bus.subscribers = s.bus.subscribers) (hemitted : s'.emitted = s.emitted)
    (hdeliveries : s'.deliveries.Perm s.deliveries) : s'.DeliversOnce := by
  constructor
  · intro p handler hhandler
    rw [calls, hdeliveries.countP_eq, hemitted]
    exact h.once p handler (hsubscribers ▸ hhandler)
  · intro x hx
    exact h.hops x (hdeliveries.mem_iff.mp hx)

theorem step_iff (c : BusCall H) (h : s.DeliversOnce) :
    (s.step raises c).DeliversOnce ↔ s.Remembered c := by
  cases c with
  | emit e timestamp =>
      by_cases hhops : e.hopCount < EventBus.maxHops
      · rw [step_emit_iff h timestamp hhops, remembered_iff h timestamp hhops]
      · refine iff_of_true (deliversOnce_of_same h (emit_subscribers _ _ _) (if_neg hhops) ?_)
          fun hlow => absurd hlow hhops
        change (s.called ++ (s.tasks ++ (s.bus.emit e timestamp).2)).Perm _
        rw [emit_hops hhops, List.append_nil]
        exact List.Perm.refl _
  | checkAll m c timestamp =>
      exact iff_of_true (deliversOnce_of_same h (checkAll_subscribers m c timestamp) rfl
        (List.Perm.refl _)) trivial
  | turn i timestamp =>
      obtain ⟨hsubscribers, hemitted⟩ :
          (s.step raises (.turn i timestamp)).bus.subscribers = s.bus.subscribers ∧ _ :=
        turn_subscribers i timestamp
      exact iff_of_true (deliversOnce_of_same h hsubscribers hemitted (deliveries_turn i timestamp))
        trivial

/-- Every handler is called once along a run exactly if the bus remembers, at every event, what
was emitted. -/
theorem delivers_once_iff (raises : H → BusEvent → Option String) (subscribers : String → List H)
    (calls : List (BusCall H)) :
    Always (step raises) DeliversOnce (start subscribers) calls ↔
      Steps (step raises) Remembered (start subscribers) calls :=
  along_iff_steps (fun _ => True) (fun _ _ _ => trivial)
    (fun _ c _ h => (iff_of_eq (and_true _)).trans (step_iff c h)) trivial
    (start_once subscribers) calls

/-- One handler listens to releases. -/
def releaseHandlers (type : String) : List String :=
  if type = "release.published" then ["announce"] else []

def released : BusEvent := ⟨"release.published", "software", "flux-v1", "t1", 1⟩

/-- The second emission leaves a warning, the check forgets the first one, the third is
delivered again. -/
theorem not_delivers_once : ¬ ∀ (raises : String → BusEvent → Option String)
    (subscribers : String → List String) (calls : List (BusCall String)),
    Always (step raises) DeliversOnce (start subscribers) calls := by
  intro h
  have honce := (h (fun _ _ => none) releaseHandlers [.emit released "", .emit released "",
    .checkAll {} {} "", .emit released ""]).last.once released.pair "announce" (by decide +kernel)
  revert honce
  decide +kernel

end BusRun

end Prodinamik.Safety
