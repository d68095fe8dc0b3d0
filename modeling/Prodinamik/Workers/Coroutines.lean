import Prodinamik.Workers.Pool

namespace Prodinamik.Workers

open Lib Lib.Run

/-- Where a coroutine may go from an await that ends so. -/
inductive Coroutine.Goes (k : Coroutine) (autoRecovery : Bool) : Outcome → Phase → Prop
  | ended {o : Outcome} : Goes k autoRecovery o .done
  | started {o : Outcome} {r : Nat} (hphase : k.phase = .created) (hflag : k.cancelRequested = false) :
      Goes k autoRecovery o (.receiving r)
  | received {success : Bool} {error : Option String} {r : Nat} (hphase : k.phase = .receiving r) :
      Goes k autoRecovery (.returns success error) (.executing r)
  | executed {success : Bool} {error : Option String} {r : Nat} (hphase : k.phase = .executing r) :
      Goes k autoRecovery (.returns success error) (.notifying r)
  | crashed {error : String} {r : Nat}
      (hphase : k.phase = .receiving r ∨ k.phase = .executing r ∨ k.phase = .notifying r)
      (hauto : autoRecovery = true) : Goes k autoRecovery (.raises error) (.restarting r)

namespace AgentSupervisor

variable {s : AgentSupervisor}

theorem setPhase_coroutine {c c' : Nat} {phase : Phase} {k' : Coroutine}
    (h : (s.setPhase c phase).coroutines[c']? = some k') :
    c' ≠ c ∧ s.coroutines[c']? = some k' ∨
      c' = c ∧ ∃ k, s.coroutines[c]? = some k ∧
        k' = { k with phase := phase, cancelRequested := false } := by
  rw [setPhase, List.getElem?_modify] at h
  obtain ⟨k, hk, rfl⟩ := Option.map_eq_some_iff.mp h
  by_cases hc : c = c'
  · subst hc
    exact .inr ⟨rfl, k, hk, if_pos rfl⟩
  · rw [if_neg hc]
    exact .inl ⟨fun h => hc h.symm, hk⟩

theorem begin_coroutines {c : Nat} {k : Coroutine} (hphase : k.phase = .created) (auto : Bool)
    (o : Outcome) (now : Int) :
    ∃ p, k.Goes auto o p ∧ (s.begin c k now).coroutines = (s.setPhase c p).coroutines := by
  rw [begin]
  split
  case isTrue => exact ⟨.done, .ended, rfl⟩
  case isFalse hflag =>
    split
    case h_1 => exact ⟨.done, .ended, rfl⟩
    case h_2 r _ => exact ⟨.receiving r, .started hphase (Bool.eq_false_iff.mpr hflag), rfl⟩

theorem proceed_coroutines {c r : Nat} {k : Coroutine} {phase : Phase} (hphase : k.phase = phase)
    (hkind : phase = .receiving r ∨ phase = .executing r ∨ phase = .notifying r) (o : Outcome)
    (now : Int) : ∃ p, k.Goes s.config.enableAutoRecovery o p ∧
      (s.proceed c r phase o now).coroutines = (s.setPhase c p).coroutines := by
  cases o with
  | raises error =>
      rw [proceed, crash]
      split
      case isTrue hauto => exact ⟨.restarting r, .crashed (hphase ▸ hkind) hauto, rfl⟩
      case isFalse => exact ⟨.done, .ended, rfl⟩
  | cancelled => exact ⟨.done, .ended, rfl⟩
  | returns success error =>
      rcases hkind with rfl | rfl | rfl
      · exact ⟨.executing r, .received hphase, rfl⟩
      · exact ⟨.notifying r, .executed hphase, rfl⟩
      · exact ⟨.done, .ended, rfl⟩

/-- What a coroutine of the next state was before the event. -/
inductive Becomes (s : AgentSupervisor) (e : Event) (c : Nat) (k' : Coroutine) : Prop
  | same (hk : s.coroutines[c]? = some k') (hstay : ∀ o now, e = .resume c o now → k'.phase = .done)
  | flagged {k : Coroutine} (hk : s.coroutines[c]? = some k)
      (hcancel : e = .stop ∨ ∃ workerId, e = .cancelWorker workerId)
      (heq : k' = { k with cancelRequested := true })
  | goes {k : Coroutine} {o : Outcome} {now : Int} {p : Phase} (hk : s.coroutines[c]? = some k)
      (he : e = .resume c o now) (hgoes : k.Goes s.config.enableAutoRecovery o p)
      (hrest : ∀ r, k.phase = .restarting r → p = .done)
      (heq : k' = { k with phase := p, cancelRequested := false })
  | spawned {taskId goal workerId : String} (he : e = .spawnWorker taskId goal)
      (hc : c = s.coroutines.length) (heq : k' = { workerId := workerId, goal := goal, origin := c })
  | restarted {k : Coroutine} {c₀ r : Nat} {o : Outcome} {now : Int} (he : e = .resume c₀ o now)
      (hk : s.coroutines[c₀]? = some k) (hphase : k.phase = .restarting r)
      (hflag : k.cancelRequested = false) (hc : c = s.coroutines.length)
      (heq : k' = { workerId := k.workerId, goal := k.goal, origin := k.origin })

/-- A coroutine that is not done was there before, or it is new: one of a new
worker, or one that a restart makes and whose predecessor is done now. -/
theorem Becomes.origin {e : Event} {c : Nat} {k' : Coroutine} (h : s.Becomes e c k')
    (hdone : k'.phase ≠ .done) :
    (∃ k, s.coroutines[c]? = some k ∧ k.origin = k'.origin ∧ k.phase ≠ .done ∧
        ∀ o now r, e = .resume c o now → k.phase ≠ .restarting r) ∨
      c = s.coroutines.length ∧ (k'.origin = c ∨ ∃ c₀ k o now r, e = .resume c₀ o now ∧
        s.coroutines[c₀]? = some k ∧ k.phase = .restarting r ∧ k.origin = k'.origin) := by
  cases h with
  | same hk hstay =>
      exact .inl ⟨k', hk, rfl, hdone, fun o now r he => absurd (hstay o now he) hdone⟩
  | @flagged k hk hcancel heq =>
      subst heq
      refine .inl ⟨k, hk, rfl, hdone, fun o now r he => ?_⟩
      rcases hcancel with rfl | ⟨workerId, rfl⟩ <;> cases he
  | @goes k o now p hk he hgoes hrest heq =>
      subst heq
      refine .inl ⟨k, hk, rfl, fun hphase => ?_, fun _ _ r _ hphase => hdone (hrest r hphase)⟩
      cases hgoes with
      | ended => exact hdone rfl
      | started h => rw [hphase] at h; cases h
      | received h => rw [hphase] at h; cases h
      | executed h => rw [hphase] at h; cases h
      | crashed h => rw [hphase] at h; rcases h with h | h | h <;> cases h
  | spawned he hc heq => exact .inr ⟨hc, .inl (by rw [heq])⟩
  | @restarted k c₀ r o now he hk hphase hflag hc heq =>
      exact .inr ⟨hc, .inr ⟨c₀, k, o, now, r, he, hk, hphase, by rw [heq]⟩⟩

/-- Cancelling changes nothing in a coroutine but the request. -/
def Flags (s s' : AgentSupervisor) : Prop :=
  ∀ (c : Nat) (k' : Coroutine), s'.coroutines[c]? = some k' → ∃ k, s.coroutines[c]? = some k ∧
    (k' = k ∨ k' = { k with cancelRequested := true })

theorem Flags.refl (s : AgentSupervisor) : s.Flags s := fun _ k hk => ⟨k, hk, .inl rfl⟩

theorem Flags.trans {s' s'' : AgentSupervisor} (h : s.Flags s') (h' : s'.Flags s'') :
    s.Flags s'' := by
  intro c k'' hk''
  obtain ⟨k', hk', heq'⟩ := h' c k'' hk''
  obtain ⟨k, hk, heq⟩ := h c k' hk'
  refine ⟨k, hk, ?_⟩
  rcases heq' with rfl | rfl
  · exact heq
  · rcases heq with rfl | rfl
    · exact .inr rfl
    · exact .inr rfl

/-- A coroutine that is cancelled or done, and remains so. -/
def Over (s : AgentSupervisor) (c : Nat) : Prop :=
  ∀ k, s.coroutines[c]? = some k → k.phase = .done ∨ k.cancelRequested = true

theorem Flags.over {s' : AgentSupervisor} (h : s.Flags s') {c : Nat} (hover : s.Over c) :
    s'.Over c := by
  intro k' hk'
  obtain ⟨k, hk, rfl | rfl⟩ := h c k' hk'
  · exact hover k' hk
  · exact .inr rfl

theorem flags_cancelTask (s : AgentSupervisor) (c : Nat) : s.Flags (s.cancelTask c) := by
  intro c' k' hk'
  rw [cancelTask, List.getElem?_modify] at hk'
  obtain ⟨k, hk, rfl⟩ := Option.map_eq_some_iff.mp hk'
  refine ⟨k, hk, ?_⟩
  by_cases hc : c = c'
  · rw [if_pos hc]
    split
    · exact .inl rfl
    · exact .inr rfl
  · exact .inl (if_neg hc)

theorem over_cancelTask (s : AgentSupervisor) (c : Nat) : (s.cancelTask c).Over c := by
  intro k' hk'
  rw [cancelTask, List.getElem?_modify] at hk'
  obtain ⟨k, hk, rfl⟩ := Option.map_eq_some_iff.mp hk'
  rw [if_pos rfl]
  split
  case isTrue hdone => exact .inl hdone
  case isFalse => exact .inr rfl

theorem cancelWorker_coroutines {s' : AgentSupervisor} {workerId : String}
    (h : s.cancelWorker workerId = some s') : ∃ c, s.workerTasks.lookup workerId = some c ∧
      s'.coroutines = (s.cancelTask c).coroutines ∧ s'.workerTasks = s.workerTasks ∧
      s'.running = s.running ∧ s'.stopping = s.stopping ∧ s'.stopped = s.stopped := by
  obtain ⟨c, hc, rfl⟩ := Option.map_eq_some_iff.mp h
  refine ⟨c, hc, ?_⟩
  simp only
  split <;> exact ⟨rfl, rfl, rfl, rfl, rfl⟩

theorem flags_cancelWorker {s' : AgentSupervisor} {workerId : String}
    (h : s.cancelWorker workerId = some s') : s.Flags s' := by
  obtain ⟨c, -, hcoroutines, -⟩ := cancelWorker_coroutines h
  rw [Flags, hcoroutines]
  exact flags_cancelTask s c

theorem over_cancelWorker {s' : AgentSupervisor} {workerId : String} {c : Nat}
    (h : s.cancelWorker workerId = some s') (hc : s.workerTasks.lookup workerId = some c) :
    s'.Over c := by
  obtain ⟨c', hc', hcoroutines, -⟩ := cancelWorker_coroutines h
  rw [hc] at hc'
  cases hc'
  rw [Over, hcoroutines]
  exact over_cancelTask s c

theorem flags_stop (s : AgentSupervisor) : s.Flags s.stop :=
  stop_induction (p := s.Flags) s (fun _ _ k hk => ⟨k, hk, .inl rfl⟩)
    fun _ _ _ hs h => hs.trans (flags_cancelWorker h)

/-- Every task that has its handle in the dict is cancelled. -/
theorem over_stop {workerId : String} {c : Nat} (hc : s.workerTasks.lookup workerId = some c) :
    s.stop.Over c := by
  have hloop : ∀ (ids : List String) (s' : AgentSupervisor), s'.workerTasks = s.workerTasks →
      (workerId ∈ ids ∨ s'.Over c) →
      (ids.foldl (fun s workerId => (s.cancelWorker workerId).getD s) s').Over c := by
    intro ids
    induction ids with
    | nil => exact fun s' _ h => h.resolve_left List.not_mem_nil
    | cons id ids ih =>
        intro s' htasks hover
        rw [List.foldl_cons]
        cases hcancel : s'.cancelWorker id with
        | none =>
            refine ih s' htasks ?_
            rcases hover with hmem | hover
            · rcases List.mem_cons.mp hmem with rfl | hmem
              · rw [cancelWorker, Option.map_eq_none_iff, htasks, hc] at hcancel
                cases hcancel
              · exact .inl hmem
            · exact .inr hover
        | some s'' =>
            obtain ⟨-, -, -, hsame, -⟩ := cancelWorker_coroutines hcancel
            refine ih s'' (hsame.trans htasks) ?_
            rcases hover with hmem | hover
            · rcases List.mem_cons.mp hmem with rfl | hmem
              · exact .inr (over_cancelWorker hcancel (htasks.symm ▸ hc))
              · exact .inl hmem
            · exact .inr ((flags_cancelWorker hcancel).over hover)
  refine hloop s.workerTasks.keys _ rfl (.inl ?_)
  exact AList.mem_keys.mp (AList.lookup_isSome.mp (hc ▸ rfl))

theorem Flags.becomes {s' : AgentSupervisor} (h : s.Flags s') {e : Event}
    (he : e = .stop ∨ ∃ workerId, e = .cancelWorker workerId) {c : Nat} {k' : Coroutine}
    (hk' : s'.coroutines[c]? = some k') : s.Becomes e c k' := by
  obtain ⟨k, hk, rfl | heq⟩ := h c k' hk'
  · refine .same hk fun o now hresume => ?_
    rcases he with rfl | ⟨workerId, rfl⟩ <;> cases hresume
  · exact .flagged hk he heq

theorem resume_becomes {c : Nat} {o : Outcome} {now : Int} {c' : Nat} {k' : Coroutine}
    (hk' : (s.resume c o now).coroutines[c']? = some k') : s.Becomes (.resume c o now) c' k' := by
  have hother : c' ≠ c → s.coroutines[c']? = some k' → s.Becomes (.resume c o now) c' k' := by
    intro hne hk
    refine .same hk fun o' now' he => ?_
    cases he
    exact absurd rfl hne
  have hset : ∀ {k p}, s.coroutines[c]? = some k → k.Goes s.config.enableAutoRecovery o p →
      (∀ r, k.phase = .restarting r → p = .done) →
      (s.setPhase c p).coroutines[c']? = some k' → s.Becomes (.resume c o now) c' k' := by
    intro k p hk hgoes hrest hset
    rcases setPhase_coroutine hset with ⟨hne, hold⟩ | ⟨rfl, k₀, hk₀, heq⟩
    · exact hother hne hold
    · rw [hk] at hk₀
      cases hk₀
      exact .goes hk rfl hgoes hrest heq
  rw [resume] at hk'
  cases hk : s.coroutines[c]? with
  | none =>
      rw [hk] at hk'
      refine hother ?_ hk'
      rintro rfl
      rw [hk] at hk'
      cases hk'
  | some k =>
      rw [hk] at hk'
      have hproceed : ∀ {phase r}, k.phase = phase →
          (phase = .receiving r ∨ phase = .executing r ∨ phase = .notifying r) →
          (s.proceed c r phase o now).coroutines[c']? = some k' →
          s.Becomes (.resume c o now) c' k' := by
        intro phase r hphase hkind hk'
        obtain ⟨p, hgoes, heq⟩ := proceed_coroutines hphase hkind o now
        rw [heq] at hk'
        refine hset hk hgoes (fun r' hr' => ?_) hk'
        rw [← hphase, hr'] at hkind
        rcases hkind with h | h | h <;> cases h
      simp only at hk'
      cases hphase : k.phase with
      | created =>
          rw [hphase] at hk'
          obtain ⟨p, hgoes, heq⟩ := begin_coroutines (s := s) (c := c) hphase
            s.config.enableAutoRecovery o now
          simp only [heq] at hk'
          refine hset hk hgoes (fun r hr => ?_) hk'
          rw [hphase] at hr
          cases hr
      | receiving r =>
          rw [hphase] at hk'
          exact hproceed hphase (.inl rfl) hk'
      | executing r =>
          rw [hphase] at hk'
          exact hproceed hphase (.inr (.inl rfl)) hk'
      | notifying r =>
          rw [hphase] at hk'
          exact hproceed hphase (.inr (.inr rfl)) hk'
      | done =>
          rw [hphase] at hk'
          refine .same hk' fun o' now' he => ?_
          cases he
          rw [hk] at hk'
          cases hk'
          exact hphase
      | restarting r =>
          rw [hphase] at hk'
          simp only at hk'
          split at hk'
          case isTrue => exact hset hk .ended (fun _ _ => rfl) hk'
          case isFalse hflag =>
            rw [restart, List.getElem?_append] at hk'
            split at hk'
            case isTrue => exact hset hk .ended (fun _ _ => rfl) hk'
            case isFalse hlt =>
              have hlength : (s.finish c r now).coroutines.length = s.coroutines.length :=
                List.length_modify _ _ _
              have hnew := List.getElem?_eq_some_iff.mp hk'
              obtain ⟨hindex, heq⟩ := hnew
              rw [List.length_singleton] at hindex
              refine .restarted rfl hk hphase (Bool.eq_false_iff.mpr hflag) (by omega) ?_
              rw [← heq, List.getElem_singleton]

theorem becomes_step {e : Event} {c : Nat} {k' : Coroutine}
    (hk' : (s.step e).coroutines[c]? = some k') : s.Becomes e c k' := by
  have hsame : s.coroutines[c]? = some k' → (∀ o now, e ≠ .resume c o now) → s.Becomes e c k' :=
    fun hk hne => .same hk fun o now he => absurd he (hne o now)
  cases e with
  | spawnWorker taskId goal =>
      rw [step] at hk'
      cases hspawn : s.spawnWorker taskId goal with
      | none =>
          rw [hspawn] at hk'
          exact hsame hk' fun _ _ he => by cases he
      | some out =>
          obtain ⟨id, s'⟩ := out
          obtain ⟨-, -, rfl⟩ := spawnWorker_eq_some hspawn
          rw [hspawn, Option.map_some, Option.getD_some, List.getElem?_append] at hk'
          split at hk'
          case isTrue => exact hsame hk' fun _ _ he => by cases he
          case isFalse hlt =>
            obtain ⟨hindex, heq⟩ := List.getElem?_eq_some_iff.mp hk'
            rw [List.length_singleton] at hindex
            have hc : c = s.coroutines.length := by omega
            have hnew : k' = { workerId := id, goal := goal, origin := c } := by
              rw [← heq, List.getElem_singleton, hc]
            exact .spawned rfl hc hnew
  | resume c' o now => exact resume_becomes hk'
  | cancelWorker workerId =>
      rw [step] at hk'
      cases hcancel : s.cancelWorker workerId with
      | none =>
          rw [hcancel] at hk'
          exact hsame hk' fun _ _ he => by cases he
      | some s' =>
          rw [hcancel] at hk'
          exact (flags_cancelWorker hcancel).becomes (.inr ⟨workerId, rfl⟩) hk'
  | cleanup now => exact hsame hk' fun _ _ he => by cases he
  | stop => exact (flags_stop s).becomes (.inl rfl) hk'
  | stopReturns i =>
      refine hsame ?_ fun _ _ he => by cases he
      rw [step, stopReturns] at hk'
      split at hk'
      case h_1 => exact hk'
      case h_2 => split at hk' <;> exact hk'

/-- What only a shutdown changes. -/
def Shutdown (s : AgentSupervisor) : Bool × List (List Nat) × Bool :=
  (s.running, s.stopping, s.stopped)

theorem shutdown_resume (s : AgentSupervisor) (c : Nat) (o : Outcome) (now : Int) :
    (s.resume c o now).Shutdown = s.Shutdown := by
  have hproceed : ∀ r phase, (s.proceed c r phase o now).Shutdown = s.Shutdown := by
    intro r phase
    cases o with
    | raises error =>
        rw [proceed, crash]
        split <;> rfl
    | cancelled => rfl
    | returns success error => cases phase <;> rfl
  rw [resume]
  split
  case h_1 => rfl
  case h_2 k _ =>
    split
    · rw [begin]
      split
      · rfl
      · split <;> rfl
    · exact hproceed _ _
    · exact hproceed _ _
    · exact hproceed _ _
    · split <;> rfl
    · rfl

theorem shutdown_cancelWorker {s' : AgentSupervisor} {workerId : String}
    (h : s.cancelWorker workerId = some s') : s'.Shutdown = s.Shutdown := by
  obtain ⟨c, -, -, -, hrunning, hstopping, hstopped⟩ := cancelWorker_coroutines h
  rw [Shutdown, Shutdown, hrunning, hstopping, hstopped]

theorem shutdown_step {e : Event} (hstop : e ≠ .stop) (hreturns : ∀ i, e ≠ .stopReturns i) :
    (s.step e).Shutdown = s.Shutdown := by
  cases e with
  | spawnWorker taskId goal =>
      rw [step]
      cases hspawn : s.spawnWorker taskId goal with
      | none => rfl
      | some out =>
          obtain ⟨-, -, hout⟩ := spawnWorker_eq_some hspawn
          rw [Option.map_some, Option.getD_some, hout]
          rfl
  | resume c o now => exact shutdown_resume s c o now
  | cancelWorker workerId =>
      rw [step]
      cases hcancel : s.cancelWorker workerId with
      | none => rfl
      | some s' => exact shutdown_cancelWorker hcancel
  | cleanup now => rfl
  | stop => exact absurd rfl hstop
  | stopReturns i => exact absurd rfl (hreturns i)

theorem stopReturns_running (s : AgentSupervisor) (i : Nat) :
    (s.stopReturns i).running = s.running := by
  rw [stopReturns]
  split
  case h_1 => rfl
  case h_2 => split <;> rfl

theorem running_step {e : Event} (he : e ≠ .stop) : (s.step e).running = s.running := by
  by_cases hreturns : ∃ i, e = .stopReturns i
  · obtain ⟨i, rfl⟩ := hreturns
    exact stopReturns_running s i
  · exact congrArg Prod.fst (shutdown_step he fun i h => hreturns ⟨i, h⟩)

theorem running_stop (s : AgentSupervisor) : s.stop.running = false :=
  stop_induction (p := fun s => s.running = false) s (fun _ => rfl)
    fun _ _ _ hs h => (congrArg Prod.fst (shutdown_cancelWorker h)).trans hs

theorem length_setPhase (s : AgentSupervisor) (c : Nat) (phase : Phase) :
    (s.setPhase c phase).coroutines.length = s.coroutines.length := List.length_modify _ _ _

theorem length_resume (s : AgentSupervisor) (c : Nat) (o : Outcome) (now : Int) :
    s.coroutines.length ≤ (s.resume c o now).coroutines.length := by
  have hproceed : ∀ {k : Coroutine} {phase : Phase} {r : Nat}, k.phase = phase →
      (phase = .receiving r ∨ phase = .executing r ∨ phase = .notifying r) →
      s.coroutines.length ≤ (s.proceed c r phase o now).coroutines.length := by
    intro k phase r hphase hkind
    obtain ⟨p, -, heq⟩ := proceed_coroutines (s := s) (c := c) hphase hkind o now
    rw [heq, length_setPhase]
  rw [resume]
  split
  case h_1 => exact le_rfl
  case h_2 k _ =>
    split
    case h_1 hphase =>
      obtain ⟨p, -, heq⟩ := begin_coroutines (s := s) (c := c) hphase true o now
      rw [heq, length_setPhase]
    case h_2 hphase => exact hproceed hphase (.inl rfl)
    case h_3 hphase => exact hproceed hphase (.inr (.inl rfl))
    case h_4 hphase => exact hproceed hphase (.inr (.inr rfl))
    case h_5 r _ =>
      have hfinish : (s.finish c r now).coroutines.length = s.coroutines.length :=
        length_setPhase _ c .done
      split
      · exact hfinish.ge
      · rw [restart, List.length_append, hfinish]
        exact Nat.le_add_right _ _
    case h_6 => exact le_rfl

theorem length_cancelWorker {s' : AgentSupervisor} {workerId : String}
    (h : s.cancelWorker workerId = some s') : s'.coroutines.length = s.coroutines.length := by
  obtain ⟨c, -, hcoroutines, -⟩ := cancelWorker_coroutines h
  rw [hcoroutines]
  exact List.length_modify _ _ _

theorem length_step (s : AgentSupervisor) (e : Event) :
    s.coroutines.length ≤ (s.step e).coroutines.length := by
  cases e with
  | spawnWorker taskId goal =>
      rw [step]
      cases hspawn : s.spawnWorker taskId goal with
      | none => exact le_rfl
      | some out =>
          obtain ⟨-, -, hout⟩ := spawnWorker_eq_some hspawn
          rw [Option.map_some, Option.getD_some, hout, List.length_append]
          exact Nat.le_add_right _ _
  | resume c o now => exact length_resume s c o now
  | cancelWorker workerId =>
      rw [step]
      cases hcancel : s.cancelWorker workerId with
      | none => exact le_rfl
      | some s' => exact (length_cancelWorker hcancel).ge
  | cleanup now => exact le_rfl
  | stop =>
      exact stop_induction (p := fun s' => s.coroutines.length ≤ s'.coroutines.length) s
        (fun _ => le_rfl) fun _ _ _ hs h => hs.trans (length_cancelWorker h).ge
  | stopReturns i =>
      rw [step, stopReturns]
      split
      case h_1 => exact le_rfl
      case h_2 => split <;> exact le_rfl

end AgentSupervisor

end Prodinamik.Workers
