import Prodinamik.Workers.Coroutines

namespace Prodinamik.Workers

open Lib Lib.Run

/-- The coroutine will not get to an execution any more, unless its callback
about the result fails. -/
def Coroutine.Held (k : Coroutine) : Prop :=
  k.phase = .done ∨ (∃ r, k.phase = .notifying r) ∨ k.cancelRequested = true

/-- Callbacks about a result do not fail, and what is cancelled does not go on
with something else than its result. -/
def Coroutine.Behaves (k : Coroutine) (autoRecovery : Bool) (o : Outcome) : Prop :=
  match k.phase, o with
  | .receiving _, .returns _ _ => k.cancelRequested = false
  | .receiving _, .raises _ => autoRecovery = true → k.cancelRequested = false
  | .executing _, .raises _ => autoRecovery = true → k.cancelRequested = false
  | .notifying _, .raises _ => autoRecovery = false
  | _, _ => True

namespace Coroutine

variable {k : Coroutine}

theorem Held.flag (h : k.Held) (hdone : k.phase ≠ .done) (hnotifying : ∀ r, k.phase ≠ .notifying r) :
    k.cancelRequested = true := by
  rcases h with h | ⟨r, h⟩ | h
  · exact absurd h hdone
  · exact absurd h (hnotifying r)
  · exact h

theorem Behaves.received {auto success : Bool} {error : Option String} {r : Nat}
    (h : k.Behaves auto (.returns success error)) (hphase : k.phase = .receiving r) :
    k.cancelRequested = false := by
  simpa only [Behaves, hphase] using h

theorem Behaves.crashed {error : String} {r : Nat} (h : k.Behaves true (.raises error))
    (hphase : k.phase = .receiving r ∨ k.phase = .executing r ∨ k.phase = .notifying r) :
    k.cancelRequested = false ∧ k.phase ≠ .notifying r := by
  rcases hphase with hphase | hphase | hphase
  · simp only [Behaves, hphase, forall_const] at h
    exact ⟨h, by rw [hphase]; exact fun h => by cases h⟩
  · simp only [Behaves, hphase, forall_const] at h
    exact ⟨h, by rw [hphase]; exact fun h => by cases h⟩
  · simp only [Behaves, hphase] at h
    cases h

/-- Nothing that behaves goes on from where it is held. -/
theorem Held.goes (h : k.Held) {auto : Bool} {o : Outcome} {p : Phase} (hbehaves : k.Behaves auto o)
    (hgoes : k.Goes auto o p) : p = .done ∨ ∃ r, p = .notifying r := by
  cases hgoes with
  | ended => exact .inl rfl
  | started hphase hflag =>
      have hheld := h.flag (by rw [hphase]; decide) fun r => by rw [hphase]; exact fun h => by cases h
      rw [hflag] at hheld
      cases hheld
  | received hphase =>
      have hheld := h.flag (by rw [hphase]; exact fun h => by cases h)
        fun r => by rw [hphase]; exact fun h => by cases h
      rw [hbehaves.received hphase] at hheld
      cases hheld
  | executed hphase => exact .inr ⟨_, rfl⟩
  | crashed hphase hauto =>
      subst hauto
      obtain ⟨hflag, hnotifying⟩ := hbehaves.crashed hphase
      have hheld := h.flag ?_ ?_
      · rw [hflag] at hheld
        cases hheld
      · rcases hphase with hphase | hphase | hphase <;> rw [hphase] <;> exact fun h => by cases h
      · intro r
        rcases hphase with hphase | hphase | hphase
        · rw [hphase]
          exact fun h => by cases h
        · rw [hphase]
          exact fun h => by cases h
        · exact absurd hphase hnotifying

end Coroutine

namespace AgentSupervisor

variable {s : AgentSupervisor}

/-- The event begins an execution of the worker. -/
def Executes (s : AgentSupervisor) (e : Event) (origin : Nat) : Prop :=
  ∃ (c r : Nat) (k' : Coroutine), (s.step e).coroutines[c]? = some k' ∧ k'.origin = origin ∧
    k'.phase = .executing r ∧
    ∀ (k : Coroutine) (r' : Nat), s.coroutines[c]? = some k → k.phase ≠ .executing r'

/-- The event makes the record RUNNING. -/
def Starts (s : AgentSupervisor) (e : Event) (r : Nat) : Prop :=
  (∃ w', (s.step e).records[r]? = some w' ∧ w'.status = .running) ∧
    ∀ (w : WorkerInfo), s.records[r]? = some w → w.status ≠ .running

theorem Executes.resumes {e : Event} {origin : Nat} (h : s.Executes e origin) :
    ∃ c k success error now r, e = .resume c (.returns success error) now ∧
      s.coroutines[c]? = some k ∧ k.phase = .receiving r ∧ k.origin = origin := by
  obtain ⟨c, r, k', hk', rfl, hphase, hold⟩ := h
  cases becomes_step hk' with
  | same hk hstay => exact absurd hphase (hold k' r hk)
  | @flagged k hk hcancel heq =>
      subst heq
      exact absurd hphase (hold k r hk)
  | @goes k o now p hk he hgoes hrest heq =>
      subst heq
      cases hgoes with
      | received hreceiving => exact ⟨c, k, _, _, now, _, he, hk, hreceiving, rfl⟩
      | _ => cases hphase
  | spawned he hc heq =>
      subst heq
      cases hphase
  | restarted he hk hrestarting hflag hc heq =>
      subst heq
      cases hphase

theorem executes_of_receiving {c r : Nat} {k : Coroutine} (hk : s.coroutines[c]? = some k)
    (hphase : k.phase = .receiving r) (success : Bool) (error : Option String) (now : Int) :
    s.Executes (.resume c (.returns success error) now) k.origin := by
  refine ⟨c, r, { k with phase := .executing r, cancelRequested := false }, ?_, rfl, rfl, ?_⟩
  · rw [step, resume, hk]
    simp only [hphase, proceed]
    rw [setPhase, List.getElem?_modify, hk]
    simp
  · intro k' r' hk'
    rw [hk] at hk'
    cases hk'
    rw [hphase]
    exact fun h => by cases h

theorem starts_of_begins {c r : Nat} {w : WorkerInfo} (h : s.Begins c r)
    (hw : s.records[r]? = some w) (hstatus : w.status ≠ .running) (o : Outcome) (now : Int) :
    s.Starts (.resume c o now) r := by
  constructor
  · rcases s.resume_cases c o now with ⟨-, hnot⟩ | ⟨r', ⟨k', hk', -, -, hr'⟩, heq⟩
    · exact absurd h (hnot r)
    · obtain ⟨k, hk, -, -, hr⟩ := h
      rw [hk] at hk'
      cases hk'
      rw [hr] at hr'
      cases hr'
      refine ⟨{ w with status := .running, startedAt := some now }, ?_, rfl⟩
      rw [step, heq, startRecord, setPhase, setRecord, List.getElem?_modify, hw]
      simp
  · intro w' hw'
    rw [hw] at hw'
    cases hw'
    exact hstatus

theorem Starts.begins {e : Event} {r : Nat} (h : s.Starts e r) :
    ∃ c o now r', e = .resume c o now ∧ s.Begins c r' := by
  obtain ⟨⟨w', hw', hrunning⟩, hold⟩ := h
  by_contra hnone
  have hspawn : ∀ taskId goal, e ≠ .spawnWorker taskId goal := by
    rintro taskId goal rfl
    rw [step] at hw'
    cases hspawn : s.spawnWorker taskId goal with
    | none =>
        rw [hspawn] at hw'
        exact hold w' hw' hrunning
    | some out =>
        obtain ⟨id, s'⟩ := out
        obtain ⟨-, -, rfl⟩ := spawnWorker_eq_some hspawn
        rw [hspawn, Option.map_some, Option.getD_some, List.getElem?_append] at hw'
        split at hw'
        · exact hold w' hw' hrunning
        · have hnew := List.mem_of_getElem? hw'
          rw [List.mem_singleton] at hnew
          rw [hnew] at hrunning
          cases hrunning
  have hsettles := settles_step s hspawn fun c o now he r' hbegins =>
    hnone ⟨c, o, now, r', he, hbegins⟩
  obtain ⟨w, hw, hstatus⟩ := hsettles.records.getElem? hw' hrunning
  exact hold w hw hstatus

/-- The worker whose execution returns a result. -/
def returning (s : AgentSupervisor) : Event → Option Nat
  | .resume c (.returns _ _) _ => (s.coroutines[c]?).bind fun k =>
      match k.phase with
      | .executing _ => some k.origin
      | _ => none
  | _ => none

/-- The worker for which cancel_worker returns True. -/
def cancelling (s : AgentSupervisor) : Event → Option Nat
  | .cancelWorker workerId => (s.workerTasks.lookup workerId).bind fun c =>
      (s.coroutines[c]?).map Coroutine.origin
  | _ => none

theorem returning_eq_some {e : Event} {origin : Nat} (h : s.returning e = some origin) :
    ∃ c k success error now r, e = .resume c (.returns success error) now ∧
      s.coroutines[c]? = some k ∧ k.phase = .executing r ∧ k.origin = origin := by
  cases e with
  | resume c o now =>
      cases o with
      | returns success error =>
          obtain ⟨k, hk, horigin⟩ := Option.bind_eq_some_iff.mp h
          cases hphase : k.phase with
          | executing r =>
              rw [hphase] at horigin
              cases horigin
              exact ⟨c, k, success, error, now, r, rfl, hk, hphase, rfl⟩
          | _ =>
              rw [hphase] at horigin
              cases horigin
      | _ => cases h
  | _ => cases h

theorem cancelling_eq_some {e : Event} {origin : Nat} (h : s.cancelling e = some origin) :
    ∃ workerId c k, e = .cancelWorker workerId ∧ s.workerTasks.lookup workerId = some c ∧
      s.coroutines[c]? = some k ∧ k.origin = origin := by
  cases e with
  | cancelWorker workerId =>
      obtain ⟨c, hc, horigin⟩ := Option.bind_eq_some_iff.mp h
      obtain ⟨k, hk, rfl⟩ := Option.map_eq_some_iff.mp horigin
      exact ⟨workerId, c, k, rfl, hc, hk, rfl⟩
  | _ => cases h

end AgentSupervisor

/-- A supervisor, the workers whose execution has returned a result, and those
that cancel_worker has cancelled. -/
structure Watch where
  supervisor : AgentSupervisor
  returned : List Nat := []
  cancelled : List Nat := []

namespace Watch

open AgentSupervisor

def start (config : SupervisorConfig) : Watch := { supervisor := { config := config } }

def step (w : Watch) (e : Event) : Watch where
  supervisor := w.supervisor.step e
  returned := w.returned ++ (w.supervisor.returning e).toList
  cancelled := w.cancelled ++ (w.supervisor.cancelling e).toList

/-- No worker is executed after its result or its cancellation, and none
starts after a stop has returned. -/
def Confined (w : Watch) (e : Event) : Prop :=
  (∀ origin, w.supervisor.Executes e origin → origin ∉ w.returned ∧ origin ∉ w.cancelled) ∧
    (w.supervisor.stopped = true → ∀ r, ¬ w.supervisor.Starts e r)

/-- Nothing is spawned once stop is called, what is cancelled is not running in
a restarted task whose handle nobody has, and coroutines behave. -/
def Orderly (w : Watch) : Event → Prop
  | .spawnWorker _ _ => w.supervisor.running = true
  | .resume c o _ => ∀ k, w.supervisor.coroutines[c]? = some k →
      k.Behaves w.supervisor.config.enableAutoRecovery o
  | .cancelWorker workerId => ∀ (c c' : Nat) (k k' : Coroutine),
      w.supervisor.workerTasks.lookup workerId = some c → w.supervisor.coroutines[c]? = some k →
        w.supervisor.coroutines[c']? = some k' → k'.origin = k.origin → k'.phase ≠ .done → c' = c
  | .stop => ∀ (c : Nat) (k : Coroutine), w.supervisor.coroutines[c]? = some k → k.phase ≠ .done →
      ∃ workerId, w.supervisor.workerTasks.lookup workerId = some c
  | _ => True

structure Sound (w : Watch) : Prop where
  /-- A worker is numbered by its first coroutine. -/
  aged : ∀ (c : Nat) (k : Coroutine), w.supervisor.coroutines[c]? = some k → k.origin ≤ c
  /-- A worker has at most one coroutine that is not done. -/
  single : ∀ (c c' : Nat) (k k' : Coroutine), w.supervisor.coroutines[c]? = some k →
    w.supervisor.coroutines[c']? = some k' → k.origin = k'.origin → k.phase ≠ .done →
      k'.phase ≠ .done → c = c'
  returned_lt : ∀ origin ∈ w.returned, origin < w.supervisor.coroutines.length
  cancelled_lt : ∀ origin ∈ w.cancelled, origin < w.supervisor.coroutines.length
  settled : ∀ (c : Nat) (k : Coroutine), w.supervisor.coroutines[c]? = some k →
    k.origin ∈ w.returned → k.phase = .done ∨ ∃ r, k.phase = .notifying r
  held : ∀ (c : Nat) (k : Coroutine), w.supervisor.coroutines[c]? = some k →
    k.origin ∈ w.cancelled ∨ w.supervisor.running = false → k.Held
  unstopped : w.supervisor.running = true →
    w.supervisor.stopping = [] ∧ w.supervisor.stopped = false

variable {w : Watch}

theorem sound_start (config : SupervisorConfig) : (start config).Sound where
  aged c k h := by cases h
  single c c' k k' h := by cases h
  returned_lt origin h := by cases h
  cancelled_lt origin h := by cases h
  settled c k h := by cases h
  held c k h := by cases h
  unstopped _ := ⟨rfl, rfl⟩

theorem Sound.confined (h : w.Sound) {e : Event} (he : w.Orderly e) : w.Confined e := by
  constructor
  · intro origin hexecutes
    obtain ⟨c, k, success, error, now, r, rfl, hk, hphase, rfl⟩ := hexecutes.resumes
    have hdone : k.phase ≠ .done := by
      rw [hphase]
      exact fun h => by cases h
    have hnotifying : ∀ r', k.phase ≠ .notifying r' := by
      intro r'
      rw [hphase]
      exact fun h => by cases h
    constructor
    · intro hreturned
      rcases h.settled c k hk hreturned with h | ⟨r', h⟩
      · exact hdone h
      · exact hnotifying r' h
    · intro hcancelled
      have hflag := (h.held c k hk (.inl hcancelled)).flag hdone hnotifying
      rw [(he k hk).received hphase] at hflag
      cases hflag
  · intro hstopped r hstarts
    obtain ⟨c, o, now, r', rfl, k, hk, hphase, hflag, -⟩ := hstarts.begins
    have hrunning : w.supervisor.running = false := by
      refine Bool.eq_false_iff.mpr fun hrunning => ?_
      rw [(h.unstopped hrunning).2] at hstopped
      cases hstopped
    have hheld := (h.held c k hk (.inr hrunning)).flag (by rw [hphase]; decide)
      fun r => by rw [hphase]; exact fun h => by cases h
    rw [hflag] at hheld
    cases hheld

/-- The numbers of coroutines and workers only grow. -/
theorem Sound.lt_step (h : w.Sound) (e : Event) :
    (∀ origin ∈ (w.step e).returned, origin < (w.step e).supervisor.coroutines.length) ∧
      ∀ origin ∈ (w.step e).cancelled, origin < (w.step e).supervisor.coroutines.length := by
  have hlength : w.supervisor.coroutines.length ≤ (w.step e).supervisor.coroutines.length :=
    length_step w.supervisor e
  have hbound : ∀ (c : Nat) (k : Coroutine), w.supervisor.coroutines[c]? = some k →
      k.origin < w.supervisor.coroutines.length := fun c k hk =>
    (h.aged c k hk).trans_lt (List.getElem?_eq_some_iff.mp hk).1
  constructor
  · intro origin hmem
    refine lt_of_lt_of_le ?_ hlength
    rcases List.mem_append.mp hmem with hold | hnew
    · exact h.returned_lt origin hold
    · obtain ⟨c, k, -, -, -, -, -, hk, -, rfl⟩ := returning_eq_some (Option.mem_toList.mp hnew)
      exact hbound c k hk
  · intro origin hmem
    refine lt_of_lt_of_le ?_ hlength
    rcases List.mem_append.mp hmem with hold | hnew
    · exact h.cancelled_lt origin hold
    · obtain ⟨id, c, k, -, -, hk, rfl⟩ := cancelling_eq_some (Option.mem_toList.mp hnew)
      exact hbound c k hk

theorem Sound.aged_step (h : w.Sound) {e : Event} {c : Nat} {k' : Coroutine}
    (hk' : (w.step e).supervisor.coroutines[c]? = some k') : k'.origin ≤ c := by
  cases becomes_step hk' with
  | same hk hstay => exact h.aged c k' hk
  | @flagged k hk hcancel heq => exact heq ▸ h.aged c k hk
  | @goes k o now p hk he hgoes hrest heq => exact heq ▸ h.aged c k hk
  | spawned he hc heq => exact heq ▸ le_rfl
  | @restarted k c₀ r o now he hk hphase hflag hc heq =>
      have hlt := (List.getElem?_eq_some_iff.mp hk).1
      have hold := h.aged c₀ k hk
      rw [heq, hc]
      exact hold.trans hlt.le

theorem Sound.single_step (h : w.Sound) {e : Event} {c c' : Nat} {k k' : Coroutine}
    (hk : (w.step e).supervisor.coroutines[c]? = some k)
    (hk' : (w.step e).supervisor.coroutines[c']? = some k') (horigin : k.origin = k'.origin)
    (hdone : k.phase ≠ .done) (hdone' : k'.phase ≠ .done) : c = c' := by
  -- an old coroutine and a new one have no worker in common
  have hnew : ∀ {c c' : Nat} {k k' k₀ : Coroutine}, k.origin = k'.origin →
      w.supervisor.coroutines[c]? = some k₀ → k₀.origin = k.origin → k₀.phase ≠ .done →
      (∀ o now r, e = .resume c o now → k₀.phase ≠ .restarting r) →
      c' = w.supervisor.coroutines.length →
      ¬ (k'.origin = c' ∨ ∃ c₀ k o now r, e = .resume c₀ o now ∧
        w.supervisor.coroutines[c₀]? = some k ∧ k.phase = .restarting r ∧
          k.origin = k'.origin) := by
    intro c c' k k' k₀ horigin hk₀ horigin₀ hdone₀ hrest hc' hkind
    rcases hkind with hspawned | ⟨c₀, k₁, o, now, r, he, hk₁, hphase, horigin₁⟩
    · have hlt := (List.getElem?_eq_some_iff.mp hk₀).1
      have hold := h.aged c k₀ hk₀
      omega
    · have hsame := h.single c c₀ k₀ k₁ hk₀ hk₁ (by rw [horigin₀, horigin₁, horigin]) hdone₀
        (by rw [hphase]; exact fun h => by cases h)
      subst hsame
      rw [hk₀] at hk₁
      cases hk₁
      exact hrest o now r he hphase
  rcases (becomes_step hk).origin hdone with ⟨k₀, hk₀, horigin₀, hdone₀, hrest₀⟩ | ⟨hc, hkind⟩
  · rcases (becomes_step hk').origin hdone' with ⟨k₁, hk₁, horigin₁, hdone₁, -⟩ | ⟨hc', hkind'⟩
    · exact h.single c c' k₀ k₁ hk₀ hk₁ (by rw [horigin₀, horigin₁, horigin]) hdone₀ hdone₁
    · exact absurd hkind' (hnew horigin hk₀ horigin₀ hdone₀ hrest₀ hc')
  · rcases (becomes_step hk').origin hdone' with
      ⟨k₁, hk₁, horigin₁, hdone₁, hrest₁⟩ | ⟨hc', -⟩
    · exact absurd hkind (hnew horigin.symm hk₁ horigin₁ hdone₁ hrest₁ hc)
    · rw [hc, hc']

theorem Sound.settled_step (h : w.Sound) {e : Event} (he : w.Orderly e) {c : Nat} {k' : Coroutine}
    (hk' : (w.step e).supervisor.coroutines[c]? = some k')
    (hreturned : k'.origin ∈ (w.step e).returned) :
    k'.phase = .done ∨ ∃ r, k'.phase = .notifying r := by
  rcases List.mem_append.mp hreturned with hold | hnew
  · cases becomes_step hk' with
    | same hk hstay => exact h.settled c k' hk hold
    | @flagged k hk hcancel heq =>
        subst heq
        exact h.settled c k hk hold
    | @goes k o now p hk heq hgoes hrest heq' =>
        subst heq heq'
        have hheld : k.Held := (h.settled c k hk hold).imp_right .inl
        exact hheld.goes (he k hk) hgoes
    | spawned heq hc heq' =>
        subst heq'
        exact absurd (h.returned_lt c hold) (hc ▸ lt_irrefl _)
    | @restarted k c₀ r o now heq hk hphase hflag hc heq' =>
        subst heq'
        rcases h.settled c₀ k hk hold with hdone | ⟨r', hnotifying⟩
        · rw [hphase] at hdone
          cases hdone
        · rw [hphase] at hnotifying
          cases hnotifying
  · obtain ⟨c₀, k, success, error, now, r, rfl, hk, hphase, horigin⟩ :=
      returning_eq_some (Option.mem_toList.mp hnew)
    cases becomes_step hk' with
    | same hk₁ hstay =>
        refine or_iff_not_imp_left.mpr fun hdone => ?_
        have hsame := h.single c c₀ k' k hk₁ hk horigin.symm hdone
          (by rw [hphase]; exact fun h => by cases h)
        subst hsame
        exact absurd (hstay _ now rfl) hdone
    | flagged hk₁ hcancel heq => rcases hcancel with hcancel | ⟨_, hcancel⟩ <;> cases hcancel
    | @goes k₁ o now' p hk₁ heq hgoes hrest heq' =>
        cases heq
        subst heq'
        rw [hk] at hk₁
        cases hk₁
        cases hgoes with
        | ended => exact .inl rfl
        | executed => exact .inr ⟨_, rfl⟩
        | started h => rw [hphase] at h; cases h
        | received h => rw [hphase] at h; cases h
    | spawned heq hc heq' => cases heq
    | restarted heq hk₁ hrestarting hflag hc heq' =>
        cases heq
        rw [hk] at hk₁
        cases hk₁
        rw [hphase] at hrestarting
        cases hrestarting

theorem Sound.held_step (h : w.Sound) {e : Event} (he : w.Orderly e) {c : Nat} {k' : Coroutine}
    (hk' : (w.step e).supervisor.coroutines[c]? = some k')
    (hover : k'.origin ∈ (w.step e).cancelled ∨ (w.step e).supervisor.running = false) :
    k'.Held := by
  have hnew : k'.origin ∈ w.cancelled ∨ w.supervisor.running = false → k'.Held := by
    intro hold
    cases becomes_step hk' with
    | same hk hstay => exact h.held c k' hk hold
    | flagged hk hcancel heq =>
        subst heq
        exact .inr (.inr rfl)
    | @goes k o now p hk heq hgoes hrest heq' =>
        subst heq heq'
        exact ((h.held c k hk hold).goes (he k hk) hgoes).imp_right .inl
    | spawned heq hc heq' =>
        subst heq heq'
        rcases hold with hcancelled | hrunning
        · exact absurd (h.cancelled_lt c hcancelled) (hc ▸ lt_irrefl _)
        · cases he.symm.trans hrunning
    | @restarted k c₀ r o now heq hk hphase hflag hc heq' =>
        subst heq'
        have hheld := (h.held c₀ k hk hold).flag (by rw [hphase]; exact fun h => by cases h)
          fun r => by rw [hphase]; exact fun h => by cases h
        rw [hflag] at hheld
        cases hheld
  rcases hover with hcancelled | hrunning
  · rcases List.mem_append.mp hcancelled with hold | hcancelling
    · exact hnew (.inl hold)
    · obtain ⟨workerId, c₀, k₀, rfl, hlookup, hk₀, horigin⟩ :=
        cancelling_eq_some (Option.mem_toList.mp hcancelling)
      have hnext : w.supervisor.cancelWorker workerId =
          some (w.step (.cancelWorker workerId)).supervisor := by
        rw [step, AgentSupervisor.step, cancelWorker, hlookup]
        rfl
      obtain ⟨k, hk, hflags⟩ := flags_cancelWorker hnext c k' hk'
      by_cases hdone : k'.phase = .done
      · exact .inl hdone
      · have hsame : c = c₀ := by
          refine he c₀ c k₀ k hlookup hk₀ hk ?_ ?_
          · rcases hflags with rfl | rfl <;> exact horigin.symm
          · rcases hflags with rfl | rfl <;> exact hdone
        subst hsame
        exact (over_cancelWorker hnext hlookup k' hk').imp_right .inr
  · by_cases hstop : e = .stop
    · subst hstop
      obtain ⟨k, hk, hflags⟩ := flags_stop w.supervisor c k' hk'
      by_cases hdone : k.phase = .done
      · rcases hflags with rfl | rfl <;> exact .inl hdone
      · obtain ⟨workerId, hlookup⟩ := he c k hk hdone
        exact (over_stop hlookup k' hk').imp_right .inr
    · refine hnew (.inr ?_)
      rw [← hrunning]
      exact (running_step hstop).symm

theorem Sound.unstopped_step (h : w.Sound) {e : Event}
    (hrunning : (w.step e).supervisor.running = true) :
    (w.step e).supervisor.stopping = [] ∧ (w.step e).supervisor.stopped = false := by
  by_cases hstop : e = .stop
  · subst hstop
    exact absurd hrunning (Bool.eq_false_iff.mp (running_stop w.supervisor))
  · have hold := h.unstopped ((running_step hstop).symm.trans hrunning)
    cases e with
    | stopReturns i =>
        rw [step, AgentSupervisor.step, stopReturns, hold.1]
        exact hold
    | stop => exact absurd rfl hstop
    | _ =>
        have hsame := shutdown_step (s := w.supervisor) hstop fun i h => by cases h
        obtain ⟨-, hrest⟩ := Prod.mk.inj hsame
        obtain ⟨hstopping, hstopped⟩ := Prod.mk.inj hrest
        exact ⟨hstopping.trans hold.1, hstopped.trans hold.2⟩

theorem Sound.step (h : w.Sound) {e : Event} (he : w.Orderly e) : (w.step e).Sound where
  aged _ _ hk' := h.aged_step hk'
  single _ _ _ _ hk hk' horigin hdone hdone' := h.single_step hk hk' horigin hdone hdone'
  returned_lt := (h.lt_step e).1
  cancelled_lt := (h.lt_step e).2
  settled _ _ hk' hreturned := h.settled_step he hk' hreturned
  held _ _ hk' hover := h.held_step he hk' hover
  unstopped hrunning := h.unstopped_step hrunning

/-- In an orderly run recovery is confined and a stop is final. -/
theorem recovery_run (config : SupervisorConfig) (es : List Event)
    (h : Steps Watch.step Orderly (start config) es) :
    Steps Watch.step Confined (start config) es := by
  have hsound : Along Watch.step Sound (fun w e => w.Sound ∧ w.Orderly e) (start config) es :=
    along_of_invariant (fun (w : Watch) e (hw : w.Sound) (he : w.Orderly e) => hw.step he)
      (sound_start config) h
  exact hsound.imp (fun _ _ => trivial) fun _ _ hw => hw.1.confined hw.2

/-- A worker is cancelled, and the supervisor stopped before the worker goes on. -/
def orderly : List Event :=
  [.spawnWorker "a" "", .resume 0 (.returns true none) 0, .cancelWorker "w-a-0", .stop,
    .resume 0 .cancelled 0, .stopReturns 0]

theorem orderly_resume {c : Nat} {k : Coroutine} {o : Outcome} {now : Int}
    (hk : w.supervisor.coroutines[c]? = some k)
    (h : k.Behaves w.supervisor.config.enableAutoRecovery o) : w.Orderly (.resume c o now) := by
  intro k' hk'
  rw [hk] at hk'
  cases hk'
  exact h

/-- A single task that has its handle can be cancelled and the supervisor stopped. -/
theorem orderly_single (hlength : w.supervisor.coroutines.length = 1) {workerId : String}
    (hc : w.supervisor.workerTasks.lookup workerId = some 0) :
    w.Orderly (.cancelWorker workerId) ∧ w.Orderly .stop := by
  have hzero : ∀ {c : Nat} {k : Coroutine}, w.supervisor.coroutines[c]? = some k → c = 0 := by
    intro c k hk
    have := (List.getElem?_eq_some_iff.mp hk).1
    omega
  constructor
  · intro c c' k k' _ hk hk' _ _
    rw [hzero hk, hzero hk']
  · intro c k hk _
    rw [hzero hk]
    exact ⟨workerId, hc⟩

theorem recovery_run_orderly : Steps Watch.step Orderly (start {}) orderly ∧
    Steps Watch.step Confined (start {}) orderly := by
  have h : Steps Watch.step Orderly (start {}) orderly := by
    refine ⟨trivial, rfl, trivial, ?_, trivial, ?_, trivial, ?_, trivial, ?_, trivial, trivial,
      trivial⟩
    · exact orderly_resume (k := ⟨"w-a-0", "", 0, .created, false⟩) (by decide +kernel) trivial
    · exact (orderly_single (by decide +kernel) (by decide +kernel)).1
    · have hhandle : ((orderly.take 3).foldl step (start {})).supervisor.workerTasks.lookup "w-a-0" =
          some 0 := by
        decide +kernel
      exact (orderly_single (by decide +kernel) hhandle).2
    · exact orderly_resume (k := ⟨"w-a-0", "", 0, .receiving 0, true⟩) (by decide +kernel) trivial
  exact ⟨h, recovery_run {} orderly h⟩

/-- A callback about the result has failed. -/
def failedCallback : List Event :=
  [.spawnWorker "a" "", .resume 0 (.returns true none) 0, .resume 0 (.returns true none) 0,
    .resume 0 (.returns true none) 0, .resume 0 (.raises "") 0, .resume 0 (.returns true none) 1,
    .resume 1 (.returns true none) 1]

/-- A worker is cancelled that has been restarted after a crash. -/
def cancelledLate : List Event :=
  [.spawnWorker "a" "", .resume 0 (.returns true none) 0, .resume 0 (.returns true none) 0,
    .resume 0 (.raises "") 0, .resume 0 (.returns true none) 1, .cancelWorker "w-a-0",
    .resume 1 (.returns true none) 1]

/-- The supervisor is stopped after a worker has been restarted. -/
def stoppedLate : List Event :=
  [.spawnWorker "a" "", .resume 0 (.returns true none) 0, .resume 0 (.returns true none) 0,
    .resume 0 (.raises "") 0, .resume 0 (.returns true none) 1, .stop, .stopReturns 0]

theorem not_confined :
    ¬ Steps Watch.step Confined (start {}) (failedCallback ++ [.resume 1 (.returns true none) 1]) ∧
      ¬ Steps Watch.step Confined (start {}) (cancelledLate ++ [.resume 1 (.returns true none) 1]) ∧
        ¬ Steps Watch.step Confined (start {}) (stoppedLate ++ [.resume 1 (.returns true none) 1]) := by
  have hexecutes : ∀ {w : Watch}, w.supervisor.coroutines[1]? =
      some ⟨"w-a-0", "", 0, .receiving 0, false⟩ →
      w.supervisor.Executes (.resume 1 (.returns true none) 1) 0 :=
    fun hk => executes_of_receiving hk rfl true none 1
  refine ⟨fun h => ?_, fun h => ?_, fun h => ?_⟩
  · exact (h.last_action.1 0 (hexecutes (by decide +kernel))).1 (by decide +kernel)
  · exact (h.last_action.1 0 (hexecutes (by decide +kernel))).2 (by decide +kernel)
  · have hbegins : (stoppedLate.foldl step (start {})).supervisor.Begins 1 0 :=
      ⟨⟨"w-a-0", "", 0, .created, false⟩, by decide +kernel, rfl, rfl, by decide +kernel⟩
    have hcancelled : ((stoppedLate.foldl step (start {})).supervisor.records[0]?).map
        WorkerInfo.status = some .cancelled := by
      decide +kernel
    obtain ⟨info, hinfo, hstatus⟩ := Option.map_eq_some_iff.mp hcancelled
    have hrunning : info.status ≠ .running := by
      rw [hstatus]
      decide
    exact h.last_action.2 (by decide +kernel) 0 (starts_of_begins hbegins hinfo hrunning _ 1)

end Watch

end Prodinamik.Workers
