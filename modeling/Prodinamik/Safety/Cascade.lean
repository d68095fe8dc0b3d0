import Mathlib.Data.Prod.Lex
import Prodinamik.Lib.Interleave
import Prodinamik.Lib.Run
import Prodinamik.Safety.EventBus

namespace Prodinamik.Safety

open Lib Relation

variable {H D A : Type}

/-- What is left of the call of a handler: it emits events, waits for answers and
ends, with an exception or without. -/
inductive Handling (D A : Type)
  | ended (raised : Option String)
  | emit (e : BusEvent) (data : D) (rest : Handling D A)
  | await (next : A → Handling D A)

namespace Handling

/-- The handling goes on to emit the event at some time. -/
inductive Emits : Handling D A → BusEvent → D → Prop
  | now (e : BusEvent) (data : D) (rest : Handling D A) : Emits (emit e data rest) e data
  | afterEmit {e' : BusEvent} {data' : D} (e : BusEvent) (data : D) {rest : Handling D A}
      (h : Emits rest e' data') : Emits (emit e data rest) e' data'
  | afterAwait {e' : BusEvent} {data' : D} {next : A → Handling D A} (answer : A)
      (h : Emits (next answer) e' data') : Emits (await next) e' data'

/-- What is left one step later. -/
inductive Later : Handling D A → Handling D A → Prop
  | emit (e : BusEvent) (data : D) (rest : Handling D A) : Later rest (.emit e data rest)
  | await (next : A → Handling D A) (answer : A) : Later (next answer) (.await next)

theorem wellFounded_later : WellFounded (@Later D A) := by
  refine ⟨fun h => ?_⟩
  induction h with
  | ended raised => exact ⟨_, fun y hy => by cases hy⟩
  | emit e data rest ih =>
      refine ⟨_, fun y hy => ?_⟩
      cases hy with
      | emit => exact ih
  | await next ih =>
      refine ⟨_, fun y hy => ?_⟩
      cases hy with
      | await _ answer => exact ih answer

theorem Emits.of_later {h h' : Handling D A} (hl : Later h' h) {e : BusEvent} {data : D}
    (he : h'.Emits e data) : h.Emits e data := by
  cases hl with
  | emit e data rest => exact .afterEmit e data he
  | await next answer => exact .afterAwait answer he

theorem Emits.of_transGen {h h' : Handling D A} (hl : TransGen Later h' h) {e : BusEvent} {data : D}
    (he : h'.Emits e data) : h.Emits e data := by
  induction hl with
  | single hl => exact he.of_later hl
  | tail _ hl ih => exact Emits.of_later hl ih

end Handling

/-- A call of a handler that the event loop has not finished. -/
structure HandlerTask (H D A : Type) where
  handler : H
  event : BusEvent
  data : D
  left : Handling D A

/-- A bus with the calls in the event loop, those that have ended and all that was
emitted, with its data. -/
structure Cascade (H D A : Type) where
  bus : EventBus H
  tasks : List (HandlerTask H D A) := []
  ended : List (H × BusEvent × D) := []
  emitted : List (BusEvent × D) := []

namespace Cascade

def start (subscribers : String → List H) : Cascade H D A where
  bus := { subscribers := subscribers }

-- what each handler does with an event
variable (react : H → BusEvent → D → Handling D A)

def emit (s : Cascade H D A) (e : BusEvent) (data : D) (timestamp : String) : Cascade H D A where
  bus := (s.bus.emit e timestamp).1
  tasks := s.tasks ++ (s.bus.emit e timestamp).2.map fun c => ⟨c.1, c.2, data, react c.1 c.2 data⟩
  ended := s.ended
  emitted := s.emitted ++ [(e, data)]

/-- The call goes on up to its next await or its end. -/
def work (answer : A) (timestamp : String) (event : BusEvent) :
    Handling D A → Cascade H D A → Cascade H D A × Option (Handling D A)
  | .ended raised, s => ({ s with bus := s.bus.safeCall raised event timestamp }, none)
  | .emit e data rest, s => work answer timestamp event rest (s.emit react e data timestamp)
  | .await next, s => (s, some (next answer))

/-- A turn of the i-th call; the order of the list has no meaning. -/
def turn (s : Cascade H D A) (i : Nat) (answer : A) (timestamp : String) : Cascade H D A :=
  match s.tasks[i]? with
  | none => s
  | some t =>
    match work react answer timestamp t.event t.left { s with tasks := s.tasks.eraseIdx i } with
    | (s', some left) => { s' with tasks := s'.tasks ++ [{ t with left := left }] }
    | (s', none) => { s' with ended := s'.ended ++ [(t.handler, t.event, t.data)] }

end Cascade

/-- Something outside emits an event, or a call has its turn. -/
inductive CascadeOp (D A : Type)
  | emit (e : BusEvent) (data : D) (timestamp : String)
  | turn (i : Nat) (answer : A) (timestamp : String)

namespace Cascade

variable (react : H → BusEvent → D → Handling D A)

def step (s : Cascade H D A) : CascadeOp D A → Cascade H D A
  | .emit e data timestamp => s.emit react e data timestamp
  | .turn i answer timestamp => s.turn react i answer timestamp

/-- The states of the event loop when nothing is emitted from outside any more. -/
def after (s : Cascade H D A) (schedule : Nat → Nat × A × String) : Nat → Cascade H D A
  | 0 => s
  | n + 1 => (after s schedule n).turn react (schedule n).1 (schedule n).2.1 (schedule n).2.2

end Cascade

/-- Handlers pass a trace on with more hops than the event they were called with has. -/
def PassesOn (react : H → BusEvent → D → Handling D A) : Prop :=
  ∀ handler e data e' data', (react handler e data).Emits e' data' → e.hopCount < e'.hopCount

namespace HandlerTask

def Onward (t : HandlerTask H D A) : Prop :=
  ∀ e data, t.left.Emits e data → t.event.hopCount < e.hopCount

def hopsLeft (t : HandlerTask H D A) : Nat := (EventBus.maxHops - t.event.hopCount).toNat

/-- Fewer hops are left or, of the same call, less of its work. -/
def Below (u t : HandlerTask H D A) : Prop :=
  Prod.Lex (· < ·) (TransGen Handling.Later) (u.hopsLeft, u.left) (t.hopsLeft, t.left)

theorem wellFounded_below : WellFounded (@Below H D A) :=
  InvImage.wf (fun t : HandlerTask H D A => (t.hopsLeft, t.left))
    (WellFounded.prod_lex wellFounded_lt Handling.wellFounded_later.transGen)

theorem below_of_hopCount {u t : HandlerTask H D A} (h : t.event.hopCount < u.event.hopCount)
    (hmax : u.event.hopCount < EventBus.maxHops) : u.Below t := by
  refine .left _ _ ?_
  rw [hopsLeft, hopsLeft]
  omega

end HandlerTask

namespace EventBus

theorem mem_emit {b : EventBus H} {e : BusEvent} {timestamp : String} {c : H × BusEvent}
    (h : c ∈ (b.emit e timestamp).2) :
    c.2 = e ∧ e.hopCount < maxHops ∧ c.1 ∈ b.subscribers e.type ∧ e.traceKey ∉ b.seenTraces := by
  rw [emit] at h
  split at h
  · cases h
  split at h
  · cases h
  · rename_i hhops hseen
    obtain ⟨handler, hmem, rfl⟩ := List.mem_map.mp h
    exact ⟨rfl, not_le.mp hhops, hmem, hseen⟩

end EventBus

namespace Cascade

variable {react : H → BusEvent → D → Handling D A} {s : Cascade H D A}

/-- Every call in the event loop emits events with more hops only. -/
def Sound (s : Cascade H D A) : Prop := ∀ t ∈ s.tasks, t.Onward

/-- A call that an emission starts is one of the event, below the limit of hops. -/
structure Started (react : H → BusEvent → D → Handling D A) (e : BusEvent) (data : D)
    (u : HandlerTask H D A) : Prop where
  event : u.event = e
  data : u.data = data
  hops : e.hopCount < EventBus.maxHops
  left : u.left = react u.handler u.event u.data

theorem emit_tasks (s : Cascade H D A) (e : BusEvent) (data : D) (timestamp : String) :
    ∃ new, (s.emit react e data timestamp).tasks = s.tasks ++ new ∧
      ∀ u ∈ new, Started react e data u := by
  refine ⟨_, rfl, fun u hu => ?_⟩
  obtain ⟨c, hc, rfl⟩ := List.mem_map.mp hu
  obtain ⟨hevent, hhops, -⟩ := EventBus.mem_emit hc
  exact ⟨hevent, rfl, hhops, rfl⟩

/-- The work of one turn adds calls of events that the handling emits, and what
is left of it comes later. -/
theorem work_tasks (answer : A) (timestamp : String) (event : BusEvent) (h : Handling D A)
    (s : Cascade H D A) :
    (∃ new, (work react answer timestamp event h s).1.tasks = s.tasks ++ new ∧
      ∀ u ∈ new, ∃ e data, h.Emits e data ∧ Started react e data u) ∧
    ∀ left, (work react answer timestamp event h s).2 = some left →
      TransGen Handling.Later left h := by
  induction h generalizing s with
  | ended raised =>
      refine ⟨⟨[], (List.append_nil _).symm, fun u hu => absurd hu List.not_mem_nil⟩,
        fun left hleft => ?_⟩
      cases hleft
  | emit e data rest ih =>
      obtain ⟨⟨new', hnew', hstarted'⟩, hlater⟩ := ih (s.emit react e data timestamp)
      obtain ⟨new, hnew, hstarted⟩ := @emit_tasks _ _ _ react s e data timestamp
      refine ⟨⟨new ++ new', ?_, fun u hu => ?_⟩, fun left hleft =>
        (hlater left hleft).tail (.emit e data rest)⟩
      · rw [work, hnew', hnew, List.append_assoc]
      · rcases List.mem_append.mp hu with hu | hu
        · exact ⟨e, data, .now e data rest, hstarted u hu⟩
        · obtain ⟨e', data', hemits, hu⟩ := hstarted' u hu
          exact ⟨e', data', .afterEmit e data hemits, hu⟩
  | await next ih =>
      refine ⟨⟨[], (List.append_nil _).symm, fun u hu => absurd hu List.not_mem_nil⟩,
        fun left hleft => ?_⟩
      obtain rfl := Option.some.inj hleft
      exact .single (.await next answer)

/-- A turn puts calls that are below the one that had it in its place. -/
theorem turn_tasks {i : Nat} {t : HandlerTask H D A} (hi : s.tasks[i]? = some t) (answer : A)
    (timestamp : String) : ∃ new, (s.turn react i answer timestamp).tasks = s.tasks.eraseIdx i ++ new ∧
      ∀ u ∈ new, (∃ e data, t.left.Emits e data ∧ Started react e data u) ∨
        u.event = t.event ∧ TransGen Handling.Later u.left t.left := by
  obtain ⟨⟨new, hnew, hstarted⟩, hlater⟩ := @work_tasks _ _ _ react answer timestamp t.event
    t.left { s with tasks := s.tasks.eraseIdx i }
  rw [turn, hi]
  simp only
  generalize work react answer timestamp t.event t.left
    { s with tasks := s.tasks.eraseIdx i } = r at hnew hlater
  obtain ⟨s', rest⟩ := r
  cases rest with
  | none => exact ⟨new, hnew, fun u hu => .inl (hstarted u hu)⟩
  | some left =>
      refine ⟨new ++ [{ t with left := left }], ?_, fun u hu => ?_⟩
      · simp only at hnew ⊢
        rw [hnew, List.append_assoc]
      · rcases List.mem_append.mp hu with hu | hu
        · exact .inl (hstarted u hu)
        · obtain rfl := List.mem_singleton.mp hu
          exact .inr ⟨rfl, hlater left rfl⟩

variable (hreact : PassesOn react)
include hreact

theorem Started.onward {e : BusEvent} {data : D} {u : HandlerTask H D A}
    (h : Started react e data u) : u.Onward := by
  intro e' data' hemits
  rw [h.left] at hemits
  exact hreact _ _ _ _ _ hemits

theorem Sound.emit (h : s.Sound) (e : BusEvent) (data : D) (timestamp : String) :
    (s.emit react e data timestamp).Sound := by
  obtain ⟨new, hnew, hstarted⟩ := @emit_tasks _ _ _ react s e data timestamp
  intro t ht
  rw [hnew] at ht
  rcases List.mem_append.mp ht with ht | ht
  · exact h t ht
  · exact (hstarted t ht).onward hreact

theorem Sound.turn_mem (h : s.Sound) {i : Nat} {t : HandlerTask H D A} (hi : s.tasks[i]? = some t)
    (answer : A) (timestamp : String) : (s.turn react i answer timestamp).Sound ∧
      TaskPool.Next HandlerTask.Below (s.turn react i answer timestamp).tasks s.tasks := by
  obtain ⟨new, hnew, hcases⟩ := @turn_tasks _ _ _ react _ _ _ hi answer timestamp
  have ht : t.Onward := h t (List.mem_of_getElem? hi)
  refine ⟨fun u hu => ?_, i, t, new, hi, fun u hu => ?_, hnew⟩
  · rw [hnew] at hu
    rcases List.mem_append.mp hu with hu | hu
    · exact h u (List.mem_of_mem_eraseIdx hu)
    · rcases hcases u hu with ⟨e, data, -, hstarted⟩ | ⟨hevent, hlater⟩
      · exact hstarted.onward hreact
      · intro e data hemits
        rw [hevent]
        exact ht e data (hemits.of_transGen hlater)
  · rcases hcases u hu with ⟨e, data, hemits, hstarted⟩ | ⟨hevent, hlater⟩
    · refine HandlerTask.below_of_hopCount ?_ ?_
      · rw [hstarted.event]
        exact ht e data hemits
      · rw [hstarted.event]
        exact hstarted.hops
    · have hhops : u.hopsLeft = t.hopsLeft := by rw [HandlerTask.hopsLeft, hevent]; rfl
      rw [HandlerTask.Below, hhops]
      exact .right _ hlater

theorem Sound.step (h : s.Sound) (op : CascadeOp D A) : (s.step react op).Sound := by
  cases op with
  | emit e data timestamp => exact h.emit hreact e data timestamp
  | turn i answer timestamp =>
      cases hi : s.tasks[i]? with
      | none =>
          rw [Cascade.step, turn, hi]
          exact h
      | some t => exact (h.turn_mem hreact hi answer timestamp).1

theorem Sound.after (h : s.Sound) (schedule : Nat → Nat × A × String) (n : Nat) :
    (s.after react schedule n).Sound := by
  induction n with
  | zero => exact h
  | succ n ih => exact ih.step hreact (.turn _ _ _)

/-- Whatever was emitted and in whatever order the calls have their turns, once
nothing comes from outside any more the event loop runs empty. -/
theorem cascade_ends (subscribers : String → List H) (ops : List (CascadeOp D A))
    (schedule : Nat → Nat × A × String)
    (hbusy : ∀ n, ((ops.foldl (step react) (start subscribers)).after react schedule n).tasks ≠ [] →
      (schedule n).1 <
        ((ops.foldl (step react) (start subscribers)).after react schedule n).tasks.length) :
    ∃ n, ((ops.foldl (step react) (start subscribers)).after react schedule n).tasks = [] := by
  have hempty : (start subscribers : Cascade H D A).Sound := fun t ht => absurd ht List.not_mem_nil
  have hstart : (ops.foldl (Cascade.step react) (start subscribers)).Sound :=
    (@Run.always_of_step _ _ (Cascade.step react) Sound (fun _ op hs => hs.step hreact op) _ hempty
      ops).last
  refine TaskPool.exists_empty HandlerTask.wellFounded_below
    (fun n => (ops.foldl (Cascade.step react) (start subscribers)).after react schedule n)
    fun n hne => ?_
  obtain ⟨t, ht⟩ : ∃ t, ((ops.foldl (Cascade.step react) (start subscribers)).after react schedule
      n).tasks[(schedule n).1]? = some t := ⟨_, List.getElem?_eq_getElem (hbusy n hne)⟩
  exact ((hstart.after hreact schedule n).turn_mem hreact ht _ _).2

omit hreact

/-- A handler that waits once and then hands each event on. -/
def relay (_ : Unit) (e : BusEvent) (data : Unit) : Handling Unit Unit :=
  .await fun _ => .emit { e with hopCount := e.hopCount + 1, traceId := e.traceId ++ "+" } data
    (.ended none)

theorem passesOn_relay : PassesOn relay := by
  intro handler e data e' data' h
  cases h with
  | afterAwait answer h =>
      cases h with
      | now => exact Int.lt_succ _
      | afterEmit e data h => cases h

theorem cascade_ends_relay : ∃ n, (([.emit ⟨"ping", "software", "flux", "t", 0⟩ () ""].foldl
    (step relay) (start fun _ => [(), ()])).after relay (fun _ => (0, (), "")) n).tasks = [] :=
  cascade_ends passesOn_relay (fun _ => [(), ()]) [.emit ⟨"ping", "software", "flux", "t", 0⟩ () ""]
    (fun _ => (0, (), "")) fun _ hne => List.length_pos_of_ne_nil hne

end Cascade

end Prodinamik.Safety
