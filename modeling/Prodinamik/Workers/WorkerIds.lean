import Prodinamik.Workers.Pool

namespace Prodinamik.Workers

open Lib Lib.Run

namespace AgentSupervisor

/-- The last hyphen of an id stands before the size of the pool. -/
theorem workerIdOf_eq_iff {taskId taskId' : String} {n n' : Nat} :
    workerIdOf taskId n = workerIdOf taskId' n' ↔
      taskId.toList.take 8 = taskId'.toList.take 8 ∧ n = n' := by
  constructor
  · intro h
    have hlist := congrArg List.reverse (List.append_cancel_left
      ((List.append_assoc _ _ _).symm.trans ((String.ofList_injective h).trans
        (List.append_assoc _ _ _))))
    have hdigits : ∀ n, '-' ∉ (Nat.toDigits 10 n).reverse := by
      intro n hmem
      obtain ⟨k, hk, hc⟩ := Text.mem_toDigits (List.mem_reverse.mp hmem)
      have hall : ∀ k < 10, '-' ≠ k.digitChar := by decide
      exact hall k hk hc
    simp only [List.reverse_append, List.reverse_cons, List.append_assoc,
      List.singleton_append] at hlist
    have hparts := congrArg (Text.partition '-') hlist
    rw [Text.partition_append (hdigits n), Text.partition_append (hdigits n')] at hparts
    obtain ⟨hn, hstem⟩ := Prod.mk.inj hparts
    refine ⟨List.reverse_injective hstem, ?_⟩
    have hparse := congrArg (Text.parseDigits 0 false) (List.reverse_injective hn)
    rw [Text.parseDigits_toDigits, Text.parseDigits_toDigits] at hparse
    exact Option.some.inj hparse
  · rintro ⟨hstem, rfl⟩
    rw [workerIdOf, workerIdOf, hstem]

/-- A task handle is kept only with the record of its worker. -/
def Handled (s : AgentSupervisor) : Prop := ∀ id ∈ s.workerTasks, id ∈ s.workers

variable {s : AgentSupervisor}

/-- Records stay records of their tasks, and the pool gets no new workers. -/
structure Keeps (s s' : AgentSupervisor) : Prop where
  records : s'.records.map WorkerInfo.taskId = s.records.map WorkerInfo.taskId
  workers : ∀ id r, s'.workers.lookup id = some r → s.workers.lookup id = some r
  handled : s.Handled → s'.Handled

theorem Keeps.refl (s : AgentSupervisor) : s.Keeps s := ⟨rfl, fun _ _ => id, id⟩

theorem Keeps.trans {s' s'' : AgentSupervisor} (h : s.Keeps s') (h' : s'.Keeps s'') :
    s.Keeps s'' :=
  ⟨h'.records.trans h.records, fun id r hr => h.workers id r (h'.workers id r hr),
    fun hs => h'.handled (h.handled hs)⟩

theorem keeps_setRecord (s : AgentSupervisor) (r : Nat) {f : WorkerInfo → WorkerInfo}
    (hf : ∀ w, (f w).taskId = w.taskId) : s.Keeps (s.setRecord r f) := by
  refine ⟨List.ext_getElem? fun r' => ?_, fun _ _ => id, id⟩
  rw [setRecord, List.getElem?_map, List.getElem?_map, List.getElem?_modify, Option.map_eq_map,
    Option.map_map]
  refine Option.map_congr fun w _ => ?_
  rw [Function.comp_apply]
  split
  · exact hf w
  · rfl

theorem keeps_setPhase (s : AgentSupervisor) (c : Nat) (phase : Phase) :
    s.Keeps (s.setPhase c phase) := ⟨rfl, fun _ _ => id, id⟩

theorem keeps_leave (s : AgentSupervisor) (c r : Nat) (phase : Phase) {f : WorkerInfo → WorkerInfo}
    (hf : ∀ w, (f w).taskId = w.taskId) : s.Keeps ((s.setRecord r f).setPhase c phase) :=
  (keeps_setRecord s r hf).trans (keeps_setPhase _ c phase)

theorem keeps_record_finish (s : AgentSupervisor) (c r : Nat) {f : WorkerInfo → WorkerInfo}
    (hf : ∀ w, (f w).taskId = w.taskId) (now : Int) : s.Keeps ((s.setRecord r f).finish c r now) :=
  (keeps_setRecord s r hf).trans (keeps_leave (s.setRecord r f) c r .done fun _ => rfl)

theorem keeps_finish (s : AgentSupervisor) (c r : Nat) (now : Int) :
    s.Keeps (s.finish c r now) := keeps_leave s c r .done fun _ => rfl

theorem keeps_begin (s : AgentSupervisor) (c : Nat) (k : Coroutine) (now : Int) :
    s.Keeps (s.begin c k now) := by
  rw [begin]
  split
  case isTrue => exact keeps_setPhase s c .done
  case isFalse =>
    split
    case h_1 => exact keeps_setPhase s c .done
    case h_2 => exact keeps_leave s c _ _ fun _ => rfl

theorem keeps_proceed (s : AgentSupervisor) (c r : Nat) (phase : Phase) (o : Outcome) (now : Int) :
    s.Keeps (s.proceed c r phase o now) := by
  cases o with
  | raises error =>
      rw [proceed, crash]
      split
      · exact keeps_leave s c r _ fun _ => rfl
      · refine keeps_record_finish s c r (fun w => ?_) now
        rfl
  | cancelled =>
      refine keeps_record_finish s c r (f := fun w => { w with status := .cancelled }) (fun w => ?_) now
      rfl
  | returns success error =>
      cases phase with
      | receiving _ => exact keeps_setPhase s c _
      | executing _ => exact keeps_leave s c r _ fun _ => rfl
      | _ => exact keeps_finish s c r now

theorem keeps_resume (s : AgentSupervisor) (c : Nat) (o : Outcome) (now : Int) :
    s.Keeps (s.resume c o now) := by
  rw [resume]
  cases hk : s.coroutines[c]? with
  | none => exact .refl s
  | some k =>
      simp only
      split
      · exact keeps_begin s c k now
      · exact keeps_proceed s c _ _ o now
      · exact keeps_proceed s c _ _ o now
      · exact keeps_proceed s c _ _ o now
      · split
        · exact keeps_finish s c _ now
        · exact (keeps_finish s c _ now).trans ⟨rfl, fun _ _ => id, id⟩
      · exact .refl s

theorem keeps_cancelWorker {s' : AgentSupervisor} {workerId : String}
    (h : s.cancelWorker workerId = some s') : s.Keeps s' := by
  obtain ⟨c, -, rfl⟩ := Option.map_eq_some_iff.mp h
  have htask : s.Keeps (s.cancelTask c) := ⟨rfl, fun _ _ => id, id⟩
  simp only
  split
  case h_1 => exact htask
  case h_2 r _ => exact htask.trans (keeps_setRecord _ r fun _ => rfl)

theorem keeps_stop (s : AgentSupervisor) : s.Keeps s.stop :=
  stop_induction (p := s.Keeps) s (fun _ => ⟨rfl, fun _ _ => id, id⟩)
    fun _ _ _ hs h => hs.trans (keeps_cancelWorker h)

theorem keeps_stopReturns (s : AgentSupervisor) (i : Nat) : s.Keeps (s.stopReturns i) := by
  rw [stopReturns]
  split
  case h_1 => exact .refl s
  case h_2 tasks _ =>
    split
    case isTrue =>
      refine ⟨rfl, fun _ _ => id, fun h => ?_⟩
      by_cases htasks : tasks = []
      · rw [Handled, if_pos htasks]
        exact h
      · rw [Handled, if_neg htasks]
        intro id hid
        exact absurd hid (AList.notMem_empty id)
    case isFalse => exact .refl s

theorem lookup_eraseAll {α : Type} (ids : List String) (m : AList fun _ : String => α) (id : String) :
    (ids.foldl (fun m id => m.erase id) m).lookup id = if id ∈ ids then none else m.lookup id := by
  induction ids generalizing m with
  | nil => rfl
  | cons id' ids ih =>
      rw [List.foldl_cons, ih]
      by_cases hid : id ∈ ids
      · rw [if_pos hid, if_pos (List.mem_cons_of_mem _ hid)]
      · by_cases heq : id = id'
        · rw [if_neg hid, if_pos (heq ▸ List.mem_cons_self), heq, AList.lookup_erase]
        · rw [if_neg hid, AList.lookup_erase_ne heq, if_neg]
          rw [List.mem_cons, not_or]
          exact ⟨heq, hid⟩

theorem keeps_cleanup (s : AgentSupervisor) (now : Int) : s.Keeps (s.cleanup now) := by
  refine ⟨rfl, fun id r hr => ?_, fun h id hid => ?_⟩
  · rw [cleanup, lookup_eraseAll] at hr
    split at hr
    · cases hr
    · exact hr
  · rw [← AList.lookup_isSome, cleanup, lookup_eraseAll] at hid ⊢
    split at hid
    case isTrue => cases hid
    case isFalse hgone =>
      rw [if_neg hgone, AList.lookup_isSome]
      exact h id (AList.lookup_isSome.mp hid)

theorem keeps_step (s : AgentSupervisor) {e : Event}
    (hspawn : ∀ taskId goal, e ≠ .spawnWorker taskId goal) : s.Keeps (s.step e) := by
  cases e with
  | spawnWorker taskId goal => exact absurd rfl (hspawn taskId goal)
  | resume c o now => exact keeps_resume s c o now
  | cancelWorker workerId =>
      rw [step]
      cases h : s.cancelWorker workerId with
      | none => exact .refl s
      | some s' => exact keeps_cancelWorker h
  | cleanup now => exact keeps_cleanup s now
  | stop => exact keeps_stop s
  | stopReturns i => exact keeps_stopReturns s i

/-- The id that is returned is no other worker's, and their records and task
handles stay in place. -/
def Fresh (s : AgentSupervisor) : Event → Prop
  | .spawnWorker taskId goal => ∀ id s', s.spawnWorker taskId goal = some (id, s') →
      id ∉ s.workers ∧
        (∀ id' r, s.workers.lookup id' = some r → s'.workers.lookup id' = some r) ∧
        ∀ id' c, s.workerTasks.lookup id' = some c → s'.workerTasks.lookup id' = some c
  | _ => True

theorem Fresh.notMem {taskId goal : String} (h : s.Fresh (.spawnWorker taskId goal))
    (hmax : s.config.maxWorkers ≠ 0) : workerIdOf taskId s.poolSize ∉ s.workers := by
  cases hspawn : s.spawnWorker taskId goal with
  | none => exact absurd (spawnWorker_eq_none.mp hspawn) hmax
  | some out =>
      obtain ⟨-, hid, -⟩ := spawnWorker_eq_some hspawn
      exact hid ▸ (h out.1 out.2 hspawn).1

theorem fresh_spawn (h : s.Handled) (taskId goal : String) :
    s.Fresh (.spawnWorker taskId goal) ↔
      s.config.maxWorkers ≠ 0 → workerIdOf taskId s.poolSize ∉ s.workers := by
  constructor
  · exact Fresh.notMem
  · intro hid id s' hspawn
    obtain ⟨hmax, rfl, rfl⟩ := spawnWorker_eq_some hspawn
    have hnew := hid hmax
    refine ⟨hnew, fun id' r hr => ?_, fun id' c hc => ?_⟩
    · rw [AList.lookup_insert_ne, hr]
      rintro rfl
      exact hnew (AList.lookup_isSome.mp (hr ▸ rfl))
    · rw [AList.lookup_insert_ne, hc]
      rintro rfl
      exact hnew (h _ (AList.lookup_isSome.mp (hc ▸ rfl)))

end AgentSupervisor

/-- A supervisor, and the size that the pool had when each record was made,
which nothing reads. -/
structure Pool where
  supervisor : AgentSupervisor
  sizes : List Nat := []

namespace Pool

open AgentSupervisor

def start (config : SupervisorConfig) : Pool := { supervisor := { config := config } }

def step (p : Pool) (e : Event) : Pool where
  supervisor := p.supervisor.step e
  sizes :=
    match e with
    | .spawnWorker _ _ =>
        if p.supervisor.config.maxWorkers = 0 then p.sizes
        else p.sizes ++ [p.supervisor.poolSize]
    | _ => p.sizes

/-- No worker in the pool has a task id that begins with the same eight
characters and was spawned when the pool had the size it has now. -/
def Distinct (p : Pool) : Event → Prop
  | .spawnWorker taskId _ => p.supervisor.config.maxWorkers ≠ 0 →
      ∀ id r w n, p.supervisor.workers.lookup id = some r → p.supervisor.records[r]? = some w →
        p.sizes[r]? = some n → w.taskId.toList.take 8 = taskId.toList.take 8 →
        n ≠ p.supervisor.poolSize
  | _ => True

structure Named (p : Pool) : Prop where
  sizes : p.sizes.length = p.supervisor.records.length
  ids : ∀ id r, p.supervisor.workers.lookup id = some r →
    ∃ taskId n, (p.supervisor.records.map WorkerInfo.taskId)[r]? = some taskId ∧
      p.sizes[r]? = some n ∧ id = workerIdOf taskId n
  handled : p.supervisor.Handled

variable {p : Pool}

theorem Named.recorded (h : p.Named) : p.supervisor.Recorded := by
  intro id r hr
  obtain ⟨taskId, n, htask, -⟩ := h.ids id r hr
  exact (List.getElem?_eq_some_iff.mp htask).1.trans_eq (List.length_map _)

theorem named_start (config : SupervisorConfig) : (start config).Named :=
  ⟨rfl, fun _ _ h => (by cases h), fun id hid => absurd hid (AList.notMem_empty id)⟩

theorem named_step (h : p.Named) (e : Event) : (p.step e).Named := by
  have hother : (∀ taskId goal, e ≠ .spawnWorker taskId goal) → (p.step e).sizes = p.sizes →
      (p.step e).Named := by
    intro hspawn hsizes
    have hkeeps := keeps_step p.supervisor hspawn
    refine ⟨?_, fun id r hr => ?_, hkeeps.handled h.handled⟩
    · rw [hsizes, h.sizes]
      exact (List.length_map _).symm.trans
        ((congrArg List.length hkeeps.records.symm).trans (List.length_map _))
    · have hids := h.ids id r (hkeeps.workers id r hr)
      rw [← hkeeps.records, ← hsizes] at hids
      exact hids
  cases e with
  | spawnWorker taskId goal =>
      cases hspawn : p.supervisor.spawnWorker taskId goal with
      | none =>
          have hmax := spawnWorker_eq_none.mp hspawn
          have hsame : p.step (.spawnWorker taskId goal) = p := by
            rw [step, AgentSupervisor.step, hspawn]
            simp only [if_pos hmax]
            rfl
          rw [hsame]
          exact h
      | some out =>
          obtain ⟨id, s'⟩ := out
          obtain ⟨hmax, rfl, rfl⟩ := spawnWorker_eq_some hspawn
          rw [step, AgentSupervisor.step, hspawn]
          simp only [if_neg hmax]
          refine ⟨?_, fun id' r hr => ?_, fun id' hid' => ?_⟩
          · simp [h.sizes]
          · by_cases hid : id' = workerIdOf taskId p.supervisor.poolSize
            · rw [hid] at hr
              cases (AList.lookup_insert _).symm.trans hr
              refine ⟨taskId, p.supervisor.poolSize, ?_, ?_, hid⟩
              · simp
              · rw [← h.sizes]
                simp
            · obtain ⟨taskId', n, htask, hn, heq⟩ :=
                h.ids id' r ((AList.lookup_insert_ne hid).symm.trans hr)
              refine ⟨taskId', n, ?_, ?_, heq⟩
              · exact (congrArg (fun l => l[r]?) List.map_append).trans
                  ((List.getElem?_append_left (List.getElem?_eq_some_iff.mp htask).1).trans htask)
              · exact (List.getElem?_append_left (List.getElem?_eq_some_iff.mp hn).1).trans hn
          · obtain rfl | hid := (AList.mem_insert _).mp hid'
            · exact (AList.mem_insert _).mpr (.inl rfl)
            · exact (AList.mem_insert _).mpr (.inr (h.handled id' hid))
  | _ => exact hother (fun _ _ h => by cases h) rfl

theorem fresh_iff (h : p.Named) (e : Event) : p.supervisor.Fresh e ↔ p.Distinct e := by
  cases e with
  | spawnWorker taskId goal =>
      rw [fresh_spawn h.handled]
      refine imp_congr_right fun hmax => ?_
      constructor
      · rintro hid id r w n hr hw hn hstem rfl
        refine hid (AList.lookup_isSome.mp ?_)
        obtain ⟨taskId', n', htask, hn', heq⟩ := h.ids id r hr
        rw [List.getElem?_map, hw] at htask
        rw [hn] at hn'
        cases htask
        cases hn'
        rw [← workerIdOf_eq_iff.mpr ⟨hstem, rfl⟩, ← heq, hr]
        rfl
      · intro hdistinct hid
        obtain ⟨r, hr⟩ := Option.isSome_iff_exists.mp (AList.lookup_isSome.mpr hid)
        obtain ⟨taskId', n, htask, hn, heq⟩ := h.ids _ r hr
        obtain ⟨hstem, hsize⟩ := workerIdOf_eq_iff.mp heq
        rw [List.getElem?_map] at htask
        obtain ⟨w, hw, rfl⟩ := Option.map_eq_some_iff.mp htask
        exact hdistinct _ r w n hr hw hn hstem.symm hsize.symm
  | _ => exact Iff.rfl

theorem spare_of_free {config : SupervisorConfig} {es : List Event}
    (h : Steps step (fun p e => p.supervisor.Free e) (start config) es) :
    Steps step (fun p e => p.supervisor.Spare e) (start config) es := by
  let inv : Pool → Prop := fun p =>
    p.supervisor.Worked ∧ p.supervisor.unfinished ≤ p.supervisor.config.maxWorkers
  have hstart : inv (start config) := ⟨fun r w hw => (by cases hw), Nat.zero_le _⟩
  have hrun : Along step inv (fun p e => inv p ∧ p.supervisor.Free e) (start config) es :=
    along_of_invariant (fun (p : Pool) e (hp : inv p) (hfree : p.supervisor.Free e) =>
      free_step hp.1 hp.2 hfree) hstart h
  exact hrun.imp (fun _ _ => trivial) fun _ e hp => spare_of_unfinished hp.1.1 hp.1.2 e

/-- The pool stays within its limit and never loses a worker to the name of
another exactly in the runs that leave it room and distinct names; it has the
room if workers are spawned only while fewer than max_workers are on their way. -/
theorem pool_run (config : SupervisorConfig) (es : List Event) :
    (Along step (fun p => p.supervisor.Bound) (fun p e => p.supervisor.Fresh e) (start config) es ↔
        Steps step (fun p e => p.supervisor.Spare e ∧ p.Distinct e) (start config) es) ∧
      (Steps step (fun p e => p.supervisor.Free e) (start config) es →
        Steps step (fun p e => p.supervisor.Spare e) (start config) es) := by
  refine ⟨along_iff_steps Named (fun _ e h => named_step h e) (fun p e hnamed hbound => ?_)
    (named_start config) (Nat.zero_le _) es, spare_of_free⟩
  exact and_congr (bound_step hnamed.recorded hbound e) (fresh_iff hnamed e)

def twoAtOnce : List Event :=
  [.spawnWorker "a" "", .spawnWorker "b" "", .resume 0 (.returns true none) 0,
    .resume 1 (.returns true none) 0]

/-- The first of two workers ends and is cleaned up; the third is named like the second. -/
def sameName : List Event :=
  [.spawnWorker "task-1234" "", .spawnWorker "task-1235" "", .resume 0 (.returns true none) 0,
    .resume 0 (.returns true none) 0, .resume 0 (.returns true none) 0,
    .resume 0 (.returns true none) 0, .resume 1 (.returns true none) 0, .cleanup 61]

theorem not_bounded : ¬ Along step (fun p => p.supervisor.Bound) (fun p e => p.supervisor.Fresh e)
      (start { maxWorkers := 1 }) twoAtOnce ∧
    ¬ Along step (fun p => p.supervisor.Bound) (fun p e => p.supervisor.Fresh e)
      (start { maxWorkers := 2 }) (sameName ++ [.spawnWorker "task-1236" ""]) := by
  constructor
  · intro h
    have hbound : (twoAtOnce.foldl step (start { maxWorkers := 1 })).supervisor.runningCount ≤ 1 :=
      h.last
    exact absurd hbound (by decide +kernel)
  · intro h
    have hfresh := Fresh.notMem h.last_action (by decide +kernel)
    have hsome : ((sameName.foldl step (start { maxWorkers := 2 })).supervisor.workers.lookup
        (workerIdOf "task-1236"
          (sameName.foldl step (start { maxWorkers := 2 })).supervisor.poolSize)).isSome = true := by
      decide +kernel
    exact hfresh (AList.lookup_isSome.mp hsome)

end Pool

end Prodinamik.Workers
