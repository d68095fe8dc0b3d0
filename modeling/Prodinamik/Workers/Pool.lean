import Prodinamik.Lib.PyList
import Prodinamik.Lib.Run
import Prodinamik.Lib.Text
import Prodinamik.Workers.Supervisor

namespace Prodinamik.Workers

open Lib Lib.Run

/-- The record of a worker that is between its beginning and its result. -/
def Phase.active : Phase → Option Nat
  | .receiving r => some r
  | .executing r => some r
  | _ => none

namespace AgentSupervisor

def runningCount (s : AgentSupervisor) : Nat := s.records.countP fun w => w.status = .running

def unfinished (s : AgentSupervisor) : Nat := s.coroutines.countP fun k => k.phase ≠ .done

def Bound (s : AgentSupervisor) : Prop := s.runningCount ≤ s.config.maxWorkers

/-- Every RUNNING record has a coroutine that works on it. -/
def Worked (s : AgentSupervisor) : Prop :=
  ∀ (r : Nat) (w : WorkerInfo), s.records[r]? = some w → w.status = .running →
    ∃ (c : Nat) (k : Coroutine), s.coroutines[c]? = some k ∧ k.phase.active = some r

variable {s : AgentSupervisor}

theorem runningCount_le (h : s.Worked) : s.runningCount ≤ s.unfinished := by
  have hnumbers : s.runningCount =
      ((s.records.zipIdx.filter fun e => e.1.status = .running).map Prod.snd).length := by
    rw [runningCount, List.length_map, ← List.countP_eq_length_filter]
    conv_lhs => rw [← List.zipIdx_map_fst 0 s.records, List.countP_map]
    rfl
  have hnodup : ((s.records.zipIdx.filter fun e => e.1.status = .running).map Prod.snd).Nodup := by
    refine List.Nodup.sublist (List.filter_sublist.map Prod.snd) ?_
    rw [List.zipIdx_map_snd]
    exact List.nodup_range'
  have hsubset : (s.records.zipIdx.filter fun e => e.1.status = .running).map Prod.snd ⊆
      s.coroutines.filterMap fun k => k.phase.active := by
    intro r hr
    obtain ⟨⟨w, n⟩, hmem, rfl⟩ := List.mem_map.mp hr
    obtain ⟨hzip, hstatus⟩ := List.mem_filter.mp hmem
    obtain ⟨c, k, hk, hactive⟩ := h n w (List.mem_zipIdx_iff_getElem?.mp hzip)
      (of_decide_eq_true hstatus)
    exact List.mem_filterMap.mpr ⟨k, List.mem_of_getElem? hk, hactive⟩
  have hheld : (s.coroutines.filterMap fun k => k.phase.active).length ≤ s.unfinished := by
    rw [List.length_filterMap_eq_countP, unfinished]
    refine List.countP_mono_left fun k _ hactive => ?_
    rw [decide_eq_true_eq]
    intro hdone
    rw [hdone] at hactive
    cases hactive
  rw [hnumbers]
  exact (List.subperm_of_subset hnodup hsubset).length_le.trans hheld

/-- No record of the first list is RUNNING only in the second. -/
def NoneStarts (ws ws' : List WorkerInfo) : Prop :=
  List.Forall₂ (fun w w' => w'.status = .running → w.status = .running) ws ws'

theorem noneStarts_refl (ws : List WorkerInfo) : NoneStarts ws ws :=
  List.forall₂_same.mpr fun _ _ h => h

theorem NoneStarts.trans {ws ws' ws'' : List WorkerInfo} (h : NoneStarts ws ws')
    (h' : NoneStarts ws' ws'') : NoneStarts ws ws'' := by
  induction h generalizing ws'' with
  | nil => exact h'
  | cons hw _ ih =>
      cases h' with
      | cons hw' hrest => exact .cons (fun hrunning => hw (hw' hrunning)) (ih hrest)

theorem NoneStarts.countP_le {ws ws' : List WorkerInfo} (h : NoneStarts ws ws') :
    (ws'.countP fun w => w.status = .running) ≤ ws.countP fun w => w.status = .running := by
  induction h with
  | nil => exact le_rfl
  | @cons w w' ws ws' hw _ ih =>
      rw [List.countP_cons, List.countP_cons]
      refine Nat.add_le_add ih ?_
      by_cases hrunning : w'.status = .running
      · simp [hrunning, hw hrunning]
      · simp [hrunning]

theorem NoneStarts.getElem? {ws ws' : List WorkerInfo} (h : NoneStarts ws ws') {r : Nat}
    {w' : WorkerInfo} (hw' : ws'[r]? = some w') (hstatus : w'.status = .running) :
    ∃ w, ws[r]? = some w ∧ w.status = .running := by
  have hlt := (List.getElem?_eq_some_iff.mp hw').1
  have hlt' : r < ws.length := h.length_eq.symm ▸ hlt
  refine ⟨ws[r], List.getElem?_eq_getElem hlt', h.get hlt' hlt ?_⟩
  obtain ⟨_, rfl⟩ := List.getElem?_eq_some_iff.mp hw'
  exact hstatus

theorem noneStarts_modify (ws : List WorkerInfo) (r : Nat) {f : WorkerInfo → WorkerInfo}
    (hf : ∀ w, (f w).status = .running → w.status = .running) :
    NoneStarts ws (ws.modify r f) := by
  induction ws generalizing r with
  | nil =>
      rw [List.modify_nil]
      exact .nil
  | cons w ws ih =>
      cases r with
      | zero => exact .cons (hf w) (noneStarts_refl ws)
      | succ r => exact .cons id (ih r)

theorem worked_setRecord (h : s.Worked) (r : Nat) {f : WorkerInfo → WorkerInfo}
    (hf : ∀ w, (f w).status = .running → w.status = .running) : (s.setRecord r f).Worked := by
  intro r' w hw hstatus
  rw [setRecord, List.getElem?_modify] at hw
  obtain ⟨w', hw', rfl⟩ := Option.map_eq_some_iff.mp hw
  refine h r' w' hw' ?_
  split at hstatus
  · exact hf w' hstatus
  · exact hstatus

/-- A coroutine may leave its record once that is not RUNNING any more. -/
theorem worked_setPhase (h : s.Worked) {c : Nat} {k : Coroutine} (hk : s.coroutines[c]? = some k)
    {phase : Phase} (hleft : ∀ (r : Nat) (w : WorkerInfo), k.phase.active = some r →
      s.records[r]? = some w → w.status = .running → phase.active = some r) :
    (s.setPhase c phase).Worked := by
  intro r w hw hstatus
  obtain ⟨c', k', hk', hactive⟩ := h r w hw hstatus
  by_cases hc : c = c'
  · subst hc
    rw [hk] at hk'
    cases hk'
    refine ⟨c, { k with phase := phase, cancelRequested := false }, ?_,
      hleft r w hactive hw hstatus⟩
    rw [setPhase, List.getElem?_modify, hk]
    simp
  · refine ⟨c', k', ?_, hactive⟩
    rw [setPhase, List.getElem?_modify, hk']
    simp [hc]

theorem unfinished_setPhase {c : Nat} {k : Coroutine} (hk : s.coroutines[c]? = some k)
    (hdone : k.phase ≠ .done) (phase : Phase) :
    (s.setPhase c phase).unfinished + 1 = s.unfinished + if phase = .done then 0 else 1 := by
  have hcount := PyList.countP_modify hk (fun k => { k with phase := phase, cancelRequested := false })
    fun k => k.phase ≠ .done
  rw [if_pos (by simpa using hdone)] at hcount
  rw [unfinished, unfinished, setPhase]
  rw [hcount]
  by_cases hphase : phase = .done <;> simp [hphase]

theorem unfinished_setPhase_le {c : Nat} {k : Coroutine} (hk : s.coroutines[c]? = some k)
    (hdone : k.phase ≠ .done) (phase : Phase) :
    (s.setPhase c phase).unfinished ≤ s.unfinished := by
  have := unfinished_setPhase hk hdone phase
  split at this <;> omega

/-- No record becomes RUNNING, no coroutine is added, and RUNNING records keep
their coroutines. -/
structure Settles (s s' : AgentSupervisor) : Prop where
  config : s'.config = s.config
  records : NoneStarts s.records s'.records
  worked : s.Worked → s'.Worked
  unfinished : s'.unfinished ≤ s.unfinished

theorem Settles.refl (s : AgentSupervisor) : s.Settles s :=
  ⟨rfl, noneStarts_refl _, id, le_rfl⟩

theorem Settles.trans {s' s'' : AgentSupervisor} (h : s.Settles s') (h' : s'.Settles s'') :
    s.Settles s'' :=
  ⟨h'.config.trans h.config, h.records.trans h'.records, fun hs => h'.worked (h.worked hs),
    h'.unfinished.trans h.unfinished⟩

theorem Settles.running {s' : AgentSupervisor} (h : s.Settles s') :
    s'.runningCount ≤ s.runningCount := h.records.countP_le

theorem settles_setRecord (r : Nat) {f : WorkerInfo → WorkerInfo}
    (hf : ∀ w, (f w).status = .running → w.status = .running) : s.Settles (s.setRecord r f) :=
  ⟨rfl, noneStarts_modify s.records r hf, fun h => worked_setRecord h r hf, le_rfl⟩

theorem settles_setPhase {c : Nat} {k : Coroutine} (hk : s.coroutines[c]? = some k)
    (hdone : k.phase ≠ .done) {phase : Phase}
    (hleft : ∀ (r : Nat) (w : WorkerInfo), k.phase.active = some r → s.records[r]? = some w →
      w.status = .running → phase.active = some r) : s.Settles (s.setPhase c phase) :=
  ⟨rfl, noneStarts_refl _, fun h => worked_setPhase h hk hleft, unfinished_setPhase_le hk hdone phase⟩

/-- A record gets another status, and the coroutine that works on it goes on. -/
theorem settles_leave {c r : Nat} {k : Coroutine} (hk : s.coroutines[c]? = some k)
    (hdone : k.phase ≠ .done) (hactive : ∀ r', k.phase.active = some r' → r' = r)
    {f : WorkerInfo → WorkerInfo} (hf : ∀ w, (f w).status ≠ .running) (phase : Phase) :
    s.Settles ((s.setRecord r f).setPhase c phase) := by
  refine (settles_setRecord r fun w hw => absurd hw (hf w)).trans
    (settles_setPhase (s := s.setRecord r f) hk hdone ?_)
  intro r' w hr' hw hstatus
  rw [hactive r' hr', setRecord, List.getElem?_modify] at hw
  obtain ⟨w', -, rfl⟩ := Option.map_eq_some_iff.mp hw
  rw [if_pos rfl] at hstatus
  exact absurd hstatus (hf w')

theorem settles_finish {c r : Nat} {k : Coroutine} (hk : s.coroutines[c]? = some k)
    (hdone : k.phase ≠ .done)
    (hleft : ∀ (r : Nat) (w : WorkerInfo), k.phase.active = some r → s.records[r]? = some w →
      w.status ≠ .running) (now : Int) : s.Settles (s.finish c r now) := by
  have hrecord := settles_setRecord (s := s) r (f := fun w => { w with completedAt := some now })
    fun w hw => hw
  refine hrecord.trans (settles_setPhase (s := s.setRecord r _) hk hdone ?_)
  intro r' w hr' hw hstatus
  rw [setRecord, List.getElem?_modify] at hw
  obtain ⟨w', hw', rfl⟩ := Option.map_eq_some_iff.mp hw
  refine absurd ?_ (hleft r' w' hr' hw')
  split at hstatus <;> exact hstatus

theorem getElem?_modify_self {ws : List WorkerInfo} {r : Nat} {f : WorkerInfo → WorkerInfo}
    {w : WorkerInfo} (h : (ws.modify r f)[r]? = some w) : ∃ w', w = f w' := by
  rw [List.getElem?_modify] at h
  obtain ⟨w', -, rfl⟩ := Option.map_eq_some_iff.mp h
  exact ⟨w', if_pos rfl⟩

/-- The status is set first, so the coroutine may end. -/
theorem settles_leave_finish {c r : Nat} {k : Coroutine} (hk : s.coroutines[c]? = some k)
    (hdone : k.phase ≠ .done) (hactive : ∀ r', k.phase.active = some r' → r' = r)
    {f : WorkerInfo → WorkerInfo} (hf : ∀ w, (f w).status ≠ .running) (now : Int) :
    s.Settles ((s.setRecord r f).finish c r now) := by
  refine (settles_setRecord r fun w hw => absurd hw (hf w)).trans
    (settles_finish (s := s.setRecord r f) hk hdone ?_ now)
  intro r' w hr' hw
  rw [hactive r' hr'] at hw
  obtain ⟨w', rfl⟩ := getElem?_modify_self hw
  exact hf w'

/-- The task of a worker of the pool is about to begin. -/
def Begins (s : AgentSupervisor) (c r : Nat) : Prop :=
  ∃ k, s.coroutines[c]? = some k ∧ k.phase = .created ∧ k.cancelRequested = false ∧
    s.workers.lookup k.workerId = some r

def startRecord (s : AgentSupervisor) (c r : Nat) (now : Int) : AgentSupervisor :=
  (s.setRecord r fun w => { w with status := .running, startedAt := some now }).setPhase c
    (.receiving r)

theorem begin_cases {c : Nat} {k : Coroutine} (hk : s.coroutines[c]? = some k)
    (hphase : k.phase = .created) (now : Int) :
    s.Settles (s.begin c k now) ∧ (∀ r, ¬ s.Begins c r) ∨
      ∃ r, s.Begins c r ∧ s.begin c k now = s.startRecord c r now := by
  have hend : s.Settles (s.setPhase c .done) := by
    refine settles_setPhase hk (by rw [hphase]; decide) fun r w hr => ?_
    rw [hphase] at hr
    cases hr
  rw [begin]
  split
  case isTrue hflag =>
    refine .inl ⟨hend, ?_⟩
    rintro r ⟨k', hk', -, hflag', -⟩
    rw [hk] at hk'
    cases hk'
    rw [hflag] at hflag'
    cases hflag'
  case isFalse hflag =>
    cases hr : s.workers.lookup k.workerId with
    | none =>
        refine .inl ⟨hend, ?_⟩
        rintro r ⟨k', hk', -, -, hr'⟩
        rw [hk] at hk'
        cases hk'
        rw [hr] at hr'
        cases hr'
    | some r => exact .inr ⟨r, ⟨k, hk, hphase, Bool.eq_false_iff.mpr hflag, hr⟩, rfl⟩

/-- The record that becomes RUNNING has the coroutine that has begun. -/
theorem worked_startRecord (h : s.Worked) {c r : Nat} (hbegins : s.Begins c r) (now : Int) :
    (s.startRecord c r now).Worked := by
  obtain ⟨k, hk, hphase, -, -⟩ := hbegins
  intro r' w hw hstatus
  rw [startRecord, setPhase, setRecord] at hw ⊢
  by_cases hr : r = r'
  · refine ⟨c, { k with phase := .receiving r, cancelRequested := false }, ?_, by rw [← hr]; rfl⟩
    rw [List.getElem?_modify, hk]
    simp
  · rw [List.getElem?_modify] at hw
    obtain ⟨w', hw', rfl⟩ := Option.map_eq_some_iff.mp hw
    rw [if_neg hr] at hstatus
    obtain ⟨c', k', hk', hactive⟩ := h r' w' hw' hstatus
    refine ⟨c', k', ?_, hactive⟩
    have hne : c ≠ c' := by
      rintro rfl
      rw [hk] at hk'
      cases hk'
      rw [hphase] at hactive
      cases hactive
    rw [List.getElem?_modify, hk']
    simp [hne]

theorem unfinished_startRecord_le {c r : Nat} (hbegins : s.Begins c r) (now : Int) :
    (s.startRecord c r now).unfinished ≤ s.unfinished := by
  obtain ⟨k, hk, hphase, -, -⟩ := hbegins
  exact unfinished_setPhase_le (s := s.setRecord r _) hk (by rw [hphase]; decide) _

theorem runningCount_startRecord {r : Nat} {w : WorkerInfo} (hw : s.records[r]? = some w) (c : Nat)
    (now : Int) : (s.startRecord c r now).runningCount =
      s.runningCount + if w.status = .running then 0 else 1 := by
  have hcount := PyList.countP_modify hw
    (fun w => { w with status := .running, startedAt := some now }) fun w => w.status = .running
  rw [runningCount, runningCount, startRecord, setPhase, setRecord]
  by_cases hrunning : w.status = .running
  · simpa [hrunning] using hcount
  · simpa [hrunning] using hcount

theorem settles_proceed {c r : Nat} {k : Coroutine} (hk : s.coroutines[c]? = some k)
    {phase : Phase} (hphase : k.phase = phase)
    (hkind : phase = .receiving r ∨ phase = .executing r ∨ phase = .notifying r) (o : Outcome)
    (now : Int) : s.Settles (s.proceed c r phase o now) := by
  subst hphase
  have hdone : k.phase ≠ .done := by
    rcases hkind with h | h | h <;> rw [h] <;> exact fun h => by cases h
  have hactive : ∀ r', k.phase.active = some r' → r' = r := by
    intro r' hr'
    rcases hkind with h | h | h <;> rw [h] at hr' <;> cases hr' <;> rfl
  cases o with
  | raises error =>
      rw [proceed, crash]
      split
      · exact settles_leave hk hdone hactive (f := fun w =>
          { w with status := .crashed, error := some error }) (fun w h => by cases h) _
      · exact settles_leave_finish hk hdone hactive (f := fun w =>
          { w with status := .crashed, error := some error }) (fun w h => by cases h) now
  | cancelled =>
      exact settles_leave_finish hk hdone hactive (f := fun w => { w with status := .cancelled })
        (fun w h => by cases h) now
  | returns success error =>
      rcases hkind with h | h | h
      · rw [h]
        refine settles_setPhase hk hdone fun r' w hr' _ _ => ?_
        rw [hactive r' hr']
        rfl
      · rw [h]
        refine settles_leave hk hdone hactive (f := fun w => { w with
          status := if success then .completed else .failed, progress := 1, error := error }) ?_ _
        intro w hw
        cases success <;> cases hw
      · rw [h]
        refine settles_finish hk hdone (fun r' w hr' => ?_) now
        rw [h] at hr'
        cases hr'

theorem settles_restart {c r : Nat} {k : Coroutine} (hk : s.coroutines[c]? = some k)
    (hphase : k.phase = .restarting r) (now : Int) :
    s.Settles (s.finish c r now) ∧ s.Settles (s.restart c r k now) := by
  have hdone : k.phase ≠ .done := by
    rw [hphase]
    exact fun h => by cases h
  have hfinish : s.Settles (s.finish c r now) := by
    refine settles_finish hk hdone (fun r' w hr' => ?_) now
    rw [hphase] at hr'
    cases hr'
  have hcount := unfinished_setPhase (s := s.setRecord r fun w =>
    { w with completedAt := some now }) hk hdone .done
  refine ⟨hfinish, hfinish.config, hfinish.records, fun h => ?_, ?_⟩
  · intro r' w hw hstatus
    obtain ⟨c', k', hk', hactive⟩ := hfinish.worked h r' w hw hstatus
    refine ⟨c', k', ?_, hactive⟩
    rw [restart, List.getElem?_append_left (List.getElem?_eq_some_iff.mp hk').1, hk']
  · rw [if_pos rfl] at hcount
    rw [restart, unfinished, List.countP_append]
    exact hcount.le

theorem resume_cases (s : AgentSupervisor) (c : Nat) (o : Outcome) (now : Int) :
    s.Settles (s.resume c o now) ∧ (∀ r, ¬ s.Begins c r) ∨
      ∃ r, s.Begins c r ∧ s.resume c o now = s.startRecord c r now := by
  rw [resume]
  cases hk : s.coroutines[c]? with
  | none =>
      refine .inl ⟨.refl s, ?_⟩
      rintro r ⟨k, hk', -⟩
      rw [hk] at hk'
      cases hk'
  | some k =>
      have hnot : k.phase ≠ .created → ∀ r, ¬ s.Begins c r := by
        rintro hne r ⟨k', hk', hphase, -⟩
        rw [hk] at hk'
        cases hk'
        exact hne hphase
      simp only
      cases hphase : k.phase with
      | created => exact begin_cases hk hphase now
      | receiving r => exact .inl ⟨settles_proceed hk hphase (.inl rfl) o now, hnot (by simp [hphase])⟩
      | executing r =>
          exact .inl ⟨settles_proceed hk hphase (.inr (.inl rfl)) o now, hnot (by simp [hphase])⟩
      | notifying r =>
          exact .inl ⟨settles_proceed hk hphase (.inr (.inr rfl)) o now, hnot (by simp [hphase])⟩
      | done => exact .inl ⟨.refl s, hnot (by simp [hphase])⟩
      | restarting r =>
          have hsettles := settles_restart hk hphase now
          refine .inl ⟨?_, hnot (by simp [hphase])⟩
          simp only
          split
          case isTrue => exact hsettles.1
          case isFalse => exact hsettles.2

/-- Cancelling a task leaves its phase as it is. -/
theorem settles_cancelTask (s : AgentSupervisor) (c : Nat) : s.Settles (s.cancelTask c) := by
  have hphase : ∀ c' : Nat, ((s.cancelTask c).coroutines[c']?).map Coroutine.phase =
      (s.coroutines[c']?).map Coroutine.phase := by
    intro c'
    rw [cancelTask, List.getElem?_modify, Option.map_eq_map, Option.map_map]
    refine Option.map_congr fun k _ => ?_
    by_cases hc : c = c' <;> by_cases hdone : k.phase = .done <;> simp [hc, hdone]
  refine ⟨rfl, noneStarts_refl _, fun h => ?_, ?_⟩
  · intro r w hw hstatus
    obtain ⟨c', k, hk, hactive⟩ := h r w hw hstatus
    have hsome := hphase c'
    rw [hk] at hsome
    obtain ⟨k', hk', hsame⟩ := Option.map_eq_some_iff.mp hsome
    exact ⟨c', k', hk', by rw [hsame, hactive]⟩
  · have hmap : (s.cancelTask c).coroutines.map Coroutine.phase =
        s.coroutines.map Coroutine.phase := by
      refine List.ext_getElem? fun c' => ?_
      rw [List.getElem?_map, List.getElem?_map, hphase]
    have hcount : ∀ ks : List Coroutine, ks.countP (fun k => k.phase ≠ .done) =
        (ks.map Coroutine.phase).countP (fun p => p ≠ .done) := fun ks => by
      rw [List.countP_map]
      rfl
    rw [unfinished, unfinished, hcount, hmap, hcount]

theorem settles_cancelWorker {s' : AgentSupervisor} {workerId : String}
    (h : s.cancelWorker workerId = some s') : s.Settles s' := by
  obtain ⟨c, -, rfl⟩ := Option.map_eq_some_iff.mp h
  simp only
  split
  case h_1 => exact settles_cancelTask s c
  case h_2 r _ =>
    exact (settles_cancelTask s c).trans (settles_setRecord r fun w hw => by cases hw)

/-- What a call of stop keeps: it is made of what cancel_worker does. -/
theorem stop_induction {p : AgentSupervisor → Prop} (s : AgentSupervisor)
    (hstart : ∀ stopping, p { s with running := false, stopping := stopping })
    (hcancel : ∀ s s' workerId, p s → s.cancelWorker workerId = some s' → p s') : p s.stop := by
  rw [stop]
  refine List.foldlRecOn _ _ (hstart _) fun s' hs' workerId _ => ?_
  cases h : s'.cancelWorker workerId with
  | none => exact hs'
  | some s'' => exact hcancel s' s'' workerId hs' h

theorem settles_stop (s : AgentSupervisor) : s.Settles s.stop :=
  stop_induction (p := s.Settles) s (fun _ => ⟨rfl, noneStarts_refl _, id, le_rfl⟩)
    fun _ _ _ hs h => hs.trans (settles_cancelWorker h)

theorem settles_stopReturns (s : AgentSupervisor) (i : Nat) : s.Settles (s.stopReturns i) := by
  rw [stopReturns]
  split
  case h_1 => exact .refl s
  case h_2 =>
    split
    case isTrue => exact ⟨rfl, noneStarts_refl _, id, le_rfl⟩
    case isFalse => exact .refl s

theorem spawnWorker_eq_some {taskId goal id : String} {s' : AgentSupervisor}
    (h : s.spawnWorker taskId goal = some (id, s')) :
    s.config.maxWorkers ≠ 0 ∧ id = workerIdOf taskId s.poolSize ∧ s' = { s with
      records := s.records ++ [{ workerId := id, taskId := taskId, goal := goal }]
      workers := s.workers.insert id s.records.length
      workerTasks := s.workerTasks.insert id s.coroutines.length
      coroutines := s.coroutines ++
        [{ workerId := id, goal := goal, origin := s.coroutines.length }] } := by
  rw [spawnWorker] at h
  split at h
  case isTrue => cases h
  case isFalse hmax =>
    cases h
    exact ⟨hmax, rfl, rfl⟩

theorem spawnWorker_eq_none {taskId goal : String} :
    s.spawnWorker taskId goal = none ↔ s.config.maxWorkers = 0 := by
  rw [spawnWorker]
  split <;> simp_all

/-- A new worker is PENDING; it will run once its task begins. -/
theorem spawn_runs {taskId goal id : String} {s' : AgentSupervisor}
    (h : s.spawnWorker taskId goal = some (id, s')) :
    s'.config = s.config ∧ s'.runningCount = s.runningCount ∧ (s.Worked → s'.Worked) ∧
      s'.unfinished = s.unfinished + 1 := by
  obtain ⟨-, -, rfl⟩ := spawnWorker_eq_some h
  refine ⟨rfl, ?_, fun hworked => ?_, ?_⟩
  · rw [runningCount, List.countP_append]
    rfl
  · intro r w hw hstatus
    rw [List.getElem?_append] at hw
    split at hw
    · obtain ⟨c, k, hk, hactive⟩ := hworked r w hw hstatus
      exact ⟨c, k, (List.getElem?_append_left (List.getElem?_eq_some_iff.mp hk).1).trans hk, hactive⟩
    · have hnew := List.mem_of_getElem? hw
      rw [List.mem_singleton] at hnew
      rw [hnew] at hstatus
      cases hstatus
  · rw [unfinished, List.countP_append]
    rfl

/-- Room for what the event makes RUNNING. -/
def Spare (s : AgentSupervisor) : Event → Prop
  | .resume c _ _ => ∀ r, s.Begins c r →
      s.runningCount < s.config.maxWorkers ∨ ∃ w, s.records[r]? = some w ∧ w.status = .running
  | _ => True

/-- Workers are spawned only while fewer than max_workers are on their way. -/
def Free (s : AgentSupervisor) : Event → Prop
  | .spawnWorker _ _ => s.unfinished < s.config.maxWorkers ∨ s.config.maxWorkers = 0
  | _ => True

/-- Each number in the dict is the number of a record. -/
def Recorded (s : AgentSupervisor) : Prop :=
  ∀ (id : String) (r : Nat), s.workers.lookup id = some r → r < s.records.length

theorem settles_step (s : AgentSupervisor) {e : Event}
    (hspawn : ∀ taskId goal, e ≠ .spawnWorker taskId goal)
    (hbegins : ∀ c o now, e = .resume c o now → ∀ r, ¬ s.Begins c r) : s.Settles (s.step e) := by
  cases e with
  | spawnWorker taskId goal => exact absurd rfl (hspawn taskId goal)
  | resume c o now =>
      rcases s.resume_cases c o now with ⟨h, -⟩ | ⟨r, hr, -⟩
      · exact h
      · exact absurd hr (hbegins c o now rfl r)
  | cancelWorker workerId =>
      rw [step]
      cases h : s.cancelWorker workerId with
      | none => exact .refl s
      | some s' => exact settles_cancelWorker h
  | cleanup now => exact ⟨rfl, noneStarts_refl _, id, le_rfl⟩
  | stop => exact settles_stop s
  | stopReturns i => exact settles_stopReturns s i

theorem config_step (s : AgentSupervisor) (e : Event) : (s.step e).config = s.config := by
  cases e with
  | spawnWorker taskId goal =>
      rw [step]
      cases h : s.spawnWorker taskId goal with
      | none => rfl
      | some out => exact (spawn_runs h).1
  | resume c o now =>
      rw [step]
      rcases s.resume_cases c o now with ⟨h, -⟩ | ⟨r, -, h⟩
      · exact h.config
      · rw [h]
        rfl
  | _ => exact (settles_step s (fun _ _ h => by cases h) fun _ _ _ h => by cases h).config

/-- One step keeps the bound exactly when it has room for what it starts. -/
theorem bound_step (hrecorded : s.Recorded) (h : s.Bound) (e : Event) :
    (s.step e).Bound ↔ s.Spare e := by
  rw [Bound, config_step]
  cases e with
  | spawnWorker taskId goal =>
      refine iff_of_true ?_ trivial
      rw [step]
      cases hspawn : s.spawnWorker taskId goal with
      | none => exact h
      | some out => exact (spawn_runs hspawn).2.1.trans_le h
  | resume c o now =>
      rw [step]
      rcases s.resume_cases c o now with ⟨hsettles, hnot⟩ | ⟨r, hbegins, hstart⟩
      · exact iff_of_true (hsettles.running.trans h) fun r hr => absurd hr (hnot r)
      · have hlt : r < s.records.length := by
          obtain ⟨k, -, -, -, hr⟩ := hbegins
          exact hrecorded k.workerId r hr
        have hw : s.records[r]? = some s.records[r] := List.getElem?_eq_getElem hlt
        have hr : ∀ r', s.Begins c r' → r' = r := by
          rintro r' ⟨k', hk', -, -, hr'⟩
          obtain ⟨k, hk, -, -, hr⟩ := hbegins
          rw [hk] at hk'
          cases hk'
          rw [hr] at hr'
          cases hr'
          rfl
        rw [hstart, runningCount_startRecord hw]
        constructor
        · rintro hle r' hr'
          rw [hr r' hr']
          by_cases hrunning : s.records[r].status = .running
          · exact .inr ⟨_, hw, hrunning⟩
          · rw [if_neg hrunning] at hle
            exact .inl hle
        · intro hspare
          rcases hspare r hbegins with hlt | ⟨w, hw', hrunning⟩
          · split <;> omega
          · rw [hw] at hw'
            cases hw'
            rw [if_pos hrunning]
            exact h
  | _ =>
      exact iff_of_true ((settles_step s (fun _ _ h => by cases h)
        fun _ _ _ h => by cases h).running.trans h) trivial

theorem free_step (hworked : s.Worked) (h : s.unfinished ≤ s.config.maxWorkers) {e : Event}
    (hfree : s.Free e) :
    (s.step e).Worked ∧ (s.step e).unfinished ≤ (s.step e).config.maxWorkers := by
  rw [config_step]
  have hsettles : s.Settles (s.step e) →
      (s.step e).Worked ∧ (s.step e).unfinished ≤ s.config.maxWorkers :=
    fun hs => ⟨hs.worked hworked, hs.unfinished.trans h⟩
  cases e with
  | spawnWorker taskId goal =>
      rw [step]
      cases hspawn : s.spawnWorker taskId goal with
      | none => exact ⟨hworked, h⟩
      | some out =>
          obtain ⟨-, -, hkeep, hcount⟩ := spawn_runs hspawn
          have hmax := (spawnWorker_eq_some hspawn).1
          refine ⟨hkeep hworked, ?_⟩
          rcases hfree with hlt | hzero
          · exact hcount.trans_le hlt
          · exact absurd hzero hmax
  | resume c o now =>
      rcases s.resume_cases c o now with ⟨hs, -⟩ | ⟨r, hbegins, heq⟩
      · exact hsettles hs
      · rw [step, heq]
        exact ⟨worked_startRecord hworked hbegins now,
          (unfinished_startRecord_le hbegins now).trans h⟩
  | _ => exact hsettles (settles_step s (fun _ _ h => by cases h) fun _ _ _ h => by cases h)

/-- While no more than max_workers are on their way, there is room. -/
theorem spare_of_unfinished (hworked : s.Worked) (h : s.unfinished ≤ s.config.maxWorkers)
    (e : Event) : s.Spare e := by
  cases e with
  | resume c o now =>
      rintro r ⟨k, hk, hphase, -⟩
      have hdone : k.phase ≠ .done := by
        rw [hphase]
        decide
      have hothers : (s.setPhase c .done).Worked := by
        refine worked_setPhase hworked hk fun r' w hr' => ?_
        rw [hphase] at hr'
        cases hr'
      have hcount := unfinished_setPhase hk hdone .done
      rw [if_pos rfl, Nat.add_zero] at hcount
      have hle : s.runningCount ≤ (s.setPhase c .done).unfinished := runningCount_le hothers
      exact .inl (by omega)
  | _ => trivial

end AgentSupervisor

end Prodinamik.Workers
