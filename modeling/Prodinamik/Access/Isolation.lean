import Prodinamik.Access.Server

namespace Prodinamik.Access.Server

open Lib.Run

/-- What a request may change beside the keys. -/
def components (s : Server) :
    Option ApprovalGate × Option HumanLoopManager × Option BudgetController :=
  (s.approvalGate, s.humanLoop, s.budgetController)

def audit (s : Server) : List ActionLog := s.approvalGate.elim [] ApprovalGate.auditLog

def reviews (s : Server) : List EscalatedItem := s.humanLoop.elim [] HumanLoopManager.resolved

/-- Who did what is recorded in the second state and not yet in the first one. -/
def newUsers (s s' : Server) : List Value :=
  (s'.audit.drop s.audit.length).map ActionLog.user ++
    (s'.reviews.drop s.reviews.length).map EscalatedItem.reviewedBy

/-- The task waits in the approval gate or in the human loop. -/
def Pending (s : Server) (task : String) : Prop :=
  (∃ g ∈ s.approvalGate, task ∈ g.paused) ∨ ∃ l ∈ s.humanLoop, ∃ item ∈ l.queue, item.id = task

/-- The request is an approval or a rejection of a task that waits. -/
def Reviews (s : Server) (r : Request) (fields : List (String × Value)) : Prop :=
  (∃ v, route r.method r.strippedPath = .human v) ∧ r.body = .object fields ∧
    ∃ task, Request.field fields "task_id" (.text "") = .text task ∧ task ≠ "" ∧ s.Pending task

def Resets (s : Server) (r : Request) : Prop :=
  route r.method r.strippedPath = .budgetReset ∧ ∃ b ∈ s.budgetController, b.reset ≠ b

section Served

variable (d : Directories) (hash : String → String)

/-- The key whose request is dispatched. -/
def served (s : Server) (r : Request) : Option AuthResult :=
  (getAuthFromHeader d hash s.authManager r).2.filter fun auth => auth.valid && r.withinRate

def ReadOnly (s : Server) (r : Request) : Prop :=
  ∃ auth ∈ (getAuthFromHeader d hash s.authManager r).2, auth.valid ∧ auth.role = roleReadonly

def Effective (s : Server) (r : Request) : Prop :=
  (s.served d hash r).isSome ∧ ((∃ fields, s.Reviews r fields) ∨ s.Resets r)

/-- No other identity than that of the key is given. -/
def Named (s : Server) (r : Request) : Prop :=
  ∀ auth ∈ s.served d hash r, ∀ fields, s.Reviews r fields → userId auth fields = .text auth.name

def Attributed (s : Server) (r : Request) : Prop :=
  ∀ auth ∈ s.served d hash r, ∀ user ∈ s.newUsers (s.step d hash r), user = .text auth.name

/-- Requests of read-only keys leave the components as they are, and what is
recorded for a key is recorded under its name. -/
structure Isolated (s : Server) (requests : List Request) : Prop where
  untouched : Steps (step d hash) (ReadOnly d hash) s requests →
    Always (step d hash) (fun s' => s'.components = s.components) s requests
  attributed : Steps (step d hash) (Attributed d hash) s requests

end Served

theorem route_effective {method : Method} {path : String}
    (h : (∃ v, route method path = .human v) ∨ route method path = .budgetReset) :
    method = .post ∧ "/api/v1/".toList.isPrefixOf path.toList = true := by
  rw [route] at h
  split_ifs at h with hruns hrun hread hhuman happrove hreject hpause hreset
  · simp at h
  · simp at h
  · simp at h
  · simp at h
  · exact ⟨happrove.2, by rw [happrove.1]; decide⟩
  · exact ⟨hreject.2, by rw [hreject.1]; decide⟩
  · simp at h
  · exact ⟨hreset.2, by rw [hreset.1]; decide⟩
  · simp at h

theorem newUsers_of_components {s s' : Server} (h : s'.components = s.components) :
    s.newUsers s' = [] := by
  have hgate : s'.approvalGate = s.approvalGate := congrArg Prod.fst h
  have hloop : s'.humanLoop = s.humanLoop := congrArg (fun c => c.2.1) h
  rw [newUsers, audit, audit, reviews, reviews, hgate, hloop, List.drop_length, List.drop_length]
  rfl

theorem resolveTask_cases (v : Verdict) (g : ApprovalGate) (task : String) (user feedback : Value)
    (now : Int) :
    (task ∈ g.paused ∧ ∃ g' entry, g.resolveTask v task user feedback now = some g' ∧
      g'.auditLog = g.auditLog ++ [entry] ∧ entry.user = user) ∨
    (task ∉ g.paused ∧ g.resolveTask v task user feedback now = none) := by
  cases hp : g.paused.lookup task with
  | none =>
      refine .inr ⟨AList.lookup_eq_none.mp hp, ?_⟩
      rw [ApprovalGate.resolveTask, hp, Option.map_none]
  | some p =>
      refine .inl ⟨AList.lookup_isSome.mp (by rw [hp]; rfl), ?_⟩
      rw [ApprovalGate.resolveTask, hp, Option.map_some]
      exact ⟨_, _, rfl, rfl, rfl⟩

theorem review_cases (v : Verdict) (l : HumanLoopManager) (task : String) (user feedback : Value)
    (now : Int) :
    ((∃ item ∈ l.queue, item.id = task) ∧ ∃ l' item, l.review v task user feedback now = some l' ∧
      l'.resolved = l.resolved ++ [item] ∧ item.reviewedBy = user) ∨
    ((¬ ∃ item ∈ l.queue, item.id = task) ∧ l.review v task user feedback now = none) := by
  have hfind : (l.findInQueue task).isSome ↔ ∃ item ∈ l.queue, item.id = task := by
    rw [HumanLoopManager.findInQueue, List.find?_isSome]
    simp only [decide_eq_true_eq]
  unfold HumanLoopManager.review
  cases hitem : l.findInQueue task with
  | none =>
      rw [hitem] at hfind
      exact .inr ⟨fun hmem => absurd (hfind.mpr hmem) Bool.false_ne_true, rfl⟩
  | some item =>
      rw [hitem] at hfind
      exact .inl ⟨hfind.mp rfl, _, _, rfl, rfl, rfl⟩

/-- A task that waits is resolved once, in the gate or in the loop. -/
theorem resolve_cases (v : Verdict) (s : Server) (task : String) (user feedback : Value)
    (now : Int) :
    (s.Pending task ∧ ∃ s' source, s.resolve v (.text task) user feedback now = some (s', source) ∧
      s.newUsers s' = [user]) ∨
    (¬ s.Pending task ∧ s.resolve v (.text task) user feedback now = none) := by
  have hloop : (s.approvalGate.bind fun g => g.resolveTask v task user feedback now) = none →
      (∀ g ∈ s.approvalGate, task ∉ g.paused) →
      (s.Pending task ∧ ∃ s' source,
        s.resolve v (.text task) user feedback now = some (s', source) ∧
          s.newUsers s' = [user]) ∨
      (¬ s.Pending task ∧ s.resolve v (.text task) user feedback now = none) := by
    intro hnone hgate
    simp only [resolve, hnone]
    cases hl : s.humanLoop with
    | none =>
        refine .inr ⟨?_, rfl⟩
        rintro (⟨g, hg, hp⟩ | ⟨l, hmem, -⟩)
        · exact hgate g hg hp
        · rw [hl] at hmem
          cases hmem
    | some l =>
        rw [Option.bind_some]
        obtain ⟨hqueued, l', item, hreview, hresolved, huser⟩ | ⟨hnot, hreview⟩ :=
          review_cases v l task user feedback now
        · rw [hreview]
          refine .inl ⟨.inr ⟨l, hl, hqueued⟩, _, _, rfl, ?_⟩
          simp [newUsers, audit, reviews, hl, hresolved, huser]
        · rw [hreview]
          refine .inr ⟨?_, rfl⟩
          rintro (⟨g, hg, hp⟩ | ⟨l₀, hmem, hqueued⟩)
          · exact hgate g hg hp
          · rw [hl] at hmem
            cases hmem
            exact hnot hqueued
  cases hg : s.approvalGate with
  | none => exact hloop (by rw [hg]; rfl) fun g hmem => by rw [hg] at hmem; cases hmem
  | some g =>
      obtain ⟨hpaused, g', entry, hresolve, hlog, huser⟩ | ⟨hnot, hresolve⟩ :=
        resolveTask_cases v g task user feedback now
      · refine .inl ⟨.inl ⟨g, hg, hpaused⟩, { s with approvalGate := some g' }, "approval_gate", ?_, ?_⟩
        · simp only [resolve, hg, Option.bind_some, hresolve]
        · simp [newUsers, audit, reviews, hg, hlog, huser]
      · refine hloop (by rw [hg, Option.bind_some, hresolve]) fun g₀ hmem => ?_
        rw [hg] at hmem
        cases hmem
        exact hnot

/-- An approval or rejection is recorded or changes nothing. -/
theorem apiHuman_cases (v : Verdict) (s : Server) (auth : AuthResult) (body : Body) (now : Int) :
    (∃ fields, body = .object fields ∧
      (∃ task, Request.field fields "task_id" (.text "") = .text task ∧ task ≠ "" ∧ s.Pending task) ∧
      s.newUsers (s.apiHuman v auth body now).1 = [userId auth fields]) ∨
    ((s.apiHuman v auth body now).1 = s ∧ ∀ fields, body = .object fields →
      ∀ task, Request.field fields "task_id" (.text "") = .text task → task ≠ "" →
        ¬ s.Pending task) := by
  cases body with
  | unreadable => exact .inr ⟨rfl, nofun⟩
  | notObject => exact .inr ⟨rfl, nofun⟩
  | object fields =>
      have hother : ∀ taskId, Request.field fields "task_id" (.text "") = taskId →
          (∀ task, taskId ≠ .text task) → (s.apiHuman v auth (.object fields) now).1 = s := by
        intro taskId htask hnot
        have hnone : ∀ user feedback, s.resolve v taskId user feedback now = none := by
          intro user feedback
          cases taskId with
          | text task => exact absurd rfl (hnot task)
          | _ => rfl
        simp only [apiHuman, htask, hnone]
        split_ifs <;> rfl
      by_cases htext : ∃ task, Request.field fields "task_id" (.text "") = .text task
      · obtain ⟨task, htask⟩ := htext
        by_cases hempty : task = ""
        · right
          refine ⟨?_, ?_⟩
          · simp [apiHuman, htask, hempty, Value.truthy]
          · rintro _ ⟨rfl⟩ task' htask' hne
            rw [htask] at htask'
            cases htask'
            exact absurd hempty hne
        · have htruthy : (Value.text task).truthy = true := decide_eq_true hempty
          obtain ⟨hpending, s', source, hresolve, husers⟩ | ⟨hnot, hresolve⟩ :=
            resolve_cases v s task (userId auth fields)
              (Request.field fields "feedback" (.text (defaultFeedback v))) now
          · left
            refine ⟨fields, rfl, ⟨task, htask, hempty, hpending⟩, ?_⟩
            simpa [apiHuman, htask, htruthy, Value.hashable, hresolve] using husers
          · right
            refine ⟨?_, ?_⟩
            · simp [apiHuman, htask, htruthy, Value.hashable, hresolve]
            · rintro _ ⟨rfl⟩ task' htask' -
              rw [htask] at htask'
              cases htask'
              exact hnot
      · right
        refine ⟨hother _ rfl fun task htask => htext ⟨task, htask⟩, ?_⟩
        rintro _ ⟨rfl⟩ task htask
        exact absurd ⟨task, htask⟩ htext

theorem apiHumanPause_same (s : Server) (body : Body) : (s.apiHumanPause body).1 = s := by
  simp only [apiHumanPause]
  split
  · rfl
  · rfl
  · split_ifs <;> rfl

/-- The budget is reset or there is nothing to reset. -/
theorem apiHumanBudgetReset_cases (s : Server) :
    (∃ b ∈ s.budgetController, b.reset ≠ b ∧ s.newUsers s.apiHumanBudgetReset.1 = [] ∧
      s.apiHumanBudgetReset.1.components ≠ s.components) ∨
    ((∀ b ∈ s.budgetController, b.reset = b) ∧
      s.apiHumanBudgetReset.1.components = s.components) := by
  rw [apiHumanBudgetReset]
  cases hb : s.budgetController with
  | none => exact .inr ⟨nofun, rfl⟩
  | some b =>
      by_cases hsame : b.reset = b
      · refine .inr ⟨?_, ?_⟩
        · rintro _ ⟨rfl⟩
          exact hsame
        · simp [components, hb, hsame]
      · refine .inl ⟨b, rfl, hsame, ?_, ?_⟩
        · simp [newUsers, audit, reviews]
        · simp [components, hb, hsame]

section

variable (d : Directories) (hash : String → String)

theorem handleApi_cases (s : Server) (r : Request) (path : String) :
    (∃ auth ∈ s.served d hash r, ∃ m, (s.handleApi d hash r path).1 =
      ({ s with authManager := m }.dispatch auth r path).1) ∨
    ((s.handleApi d hash r path).1.components = s.components ∧ s.served d hash r = none) := by
  simp only [handleApi, served]
  cases hauth : (getAuthFromHeader d hash s.authManager r).2 with
  | none => exact .inr ⟨rfl, rfl⟩
  | some auth =>
      simp only
      by_cases hvalid : auth.valid = true
      · rw [if_pos hvalid]
        by_cases hrate : r.withinRate = true
        · rw [if_pos hrate]
          exact .inl ⟨auth, by simp [hvalid, hrate], _, rfl⟩
        · rw [if_neg hrate]
          exact .inr ⟨rfl, by simp [hrate]⟩
      · rw [if_neg hvalid]
        exact .inr ⟨rfl, by simp [hvalid]⟩

/-- A request goes to the handler of its route, or it changes nothing. -/
theorem handle_cases (s : Server) (r : Request) :
    (∃ auth ∈ s.served d hash r, ∃ m, s.step d hash r =
      ({ s with authManager := m }.dispatch auth r r.strippedPath).1) ∨
    ((s.step d hash r).components = s.components ∧
      (s.served d hash r = none ∨ (∀ v, route r.method r.strippedPath ≠ .human v) ∧
        route r.method r.strippedPath ≠ .budgetReset)) := by
  have hnot : ¬ (r.method = .post ∧ "/api/v1/".toList.isPrefixOf r.strippedPath.toList = true) →
      (∀ v, route r.method r.strippedPath ≠ .human v) ∧
        route r.method r.strippedPath ≠ .budgetReset :=
    fun hno => ⟨fun v hv => hno (route_effective (.inl ⟨v, hv⟩)),
      fun hreset => hno (route_effective (.inr hreset))⟩
  have hapi := handleApi_cases d hash s r r.strippedPath
  rw [step, handle]
  cases hmethod : r.method with
  | other => exact .inr ⟨rfl, .inr (hmethod ▸ hnot (by simp [hmethod]))⟩
  | get =>
      have hget := hnot (by simp [hmethod])
      rw [hmethod] at hget
      simp only
      split_ifs
      · exact .inr ⟨rfl, .inr hget⟩
      · exact hapi.imp_right fun h => ⟨h.1, .inl h.2⟩
      · exact .inr ⟨rfl, .inr hget⟩
  | post =>
      simp only
      split_ifs with hstem
      · exact hapi.imp_right fun h => ⟨h.1, .inl h.2⟩
      · have hpost := hnot fun h => hstem h.2
        rw [hmethod] at hpost
        exact .inr ⟨rfl, .inr hpost⟩

/-- What a request can do: record one review under the user that it names, reset
the budget or leave the components as they are. -/
theorem step_cases (s : Server) (r : Request) :
    (∃ auth ∈ s.served d hash r, ∃ fields, s.Reviews r fields ∧
      s.newUsers (s.step d hash r) = [userId auth fields]) ∨
    ((s.served d hash r).isSome ∧ s.Resets r ∧ s.newUsers (s.step d hash r) = [] ∧
      (s.step d hash r).components ≠ s.components) ∨
    (¬ s.Effective d hash r ∧ (s.step d hash r).components = s.components) := by
  obtain ⟨auth, hauth, m, hstep⟩ | ⟨hsame, hnothing⟩ := handle_cases d hash s r
  · have hserved : (s.served d hash r).isSome := by rw [Option.mem_def.mp hauth]; rfl
    have hquiet : (∀ v, route r.method r.strippedPath ≠ .human v) →
        route r.method r.strippedPath ≠ .budgetReset → ¬ s.Effective d hash r := by
      rintro hhuman hreset ⟨-, ⟨fields, ⟨v, hv⟩, -⟩ | ⟨hr, -⟩⟩
      · exact hhuman v hv
      · exact hreset hr
    rw [hstep, dispatch]
    cases hroute : route r.method r.strippedPath with
    | reads => exact .inr (.inr ⟨hquiet (by simp [hroute]) (by simp [hroute]), rfl⟩)
    | notFound => exact .inr (.inr ⟨hquiet (by simp [hroute]) (by simp [hroute]), rfl⟩)
    | pause =>
        refine .inr (.inr ⟨hquiet (by simp [hroute]) (by simp [hroute]), ?_⟩)
        change components (apiHumanPause { s with authManager := m } r.body).1 = s.components
        rw [apiHumanPause_same]
        rfl
    | human v =>
        obtain ⟨fields, hbody, hpending, husers⟩ | ⟨hsame, hnone⟩ :=
          apiHuman_cases v { s with authManager := m } auth r.body r.now
        · refine .inl ⟨auth, hauth, fields, ⟨⟨v, hroute⟩, hbody, hpending⟩, ?_⟩
          cases v with
          | approve => exact husers
          | reject => exact husers
        · refine .inr (.inr ⟨?_, ?_⟩)
          · rintro ⟨-, ⟨fields, -, hbody, task, htask, hne, hpending⟩ | ⟨hr, -⟩⟩
            · exact hnone fields hbody task htask hne hpending
            · rw [hroute] at hr
              cases hr
          · have hcomponents : components (apiHuman v { s with authManager := m } auth r.body
                r.now).1 = components s := by
              rw [hsame]
              rfl
            cases v with
            | approve => exact hcomponents
            | reject => exact hcomponents
    | budgetReset =>
        have hhuman : ∀ fields, ¬ s.Reviews r fields := by
          rintro fields ⟨⟨v, hv⟩, -⟩
          rw [hroute] at hv
          cases hv
        obtain ⟨b, hb, hne, husers, hchanged⟩ | ⟨hnone, hsame⟩ :=
          apiHumanBudgetReset_cases { s with authManager := m }
        · exact .inr (.inl ⟨hserved, ⟨hroute, b, hb, hne⟩, husers, hchanged⟩)
        · refine .inr (.inr ⟨?_, hsame⟩)
          rintro ⟨-, ⟨fields, hr⟩ | ⟨-, b, hmem, hne⟩⟩
          · exact hhuman fields hr
          · exact hne (hnone b hmem)
  · refine .inr (.inr ⟨?_, hsame⟩)
    rintro ⟨hserved, heffect⟩
    obtain hnone | ⟨hhuman, hreset⟩ := hnothing
    · rw [hnone] at hserved
      cases hserved
    · obtain ⟨fields, ⟨v, hv⟩, -⟩ | ⟨hr, -⟩ := heffect
      · exact hhuman v hv
      · exact hreset hr

theorem components_step (s : Server) (r : Request) :
    (s.step d hash r).components = s.components ↔ ¬ s.Effective d hash r := by
  obtain ⟨auth, hauth, fields, hr, husers⟩ | ⟨hserved, hr, -, hchanged⟩ | ⟨hquiet, hsame⟩ :=
    step_cases d hash s r
  · have heffective : s.Effective d hash r :=
      ⟨by rw [Option.mem_def.mp hauth]; rfl, .inl ⟨fields, hr⟩⟩
    refine iff_of_false (fun hsame => ?_) (not_not_intro heffective)
    rw [newUsers_of_components hsame] at husers
    cases husers
  · exact iff_of_false hchanged (not_not_intro ⟨hserved, .inr hr⟩)
  · exact iff_of_true hsame hquiet

theorem attributed_iff (s : Server) (r : Request) :
    s.Attributed d hash r ↔ s.Named d hash r := by
  have hunrecorded : s.newUsers (s.step d hash r) = [] → s.Attributed d hash r := by
    intro hnone auth _ user huser
    rw [hnone] at huser
    cases huser
  obtain ⟨auth, hauth, fields, hr, husers⟩ | ⟨-, ⟨hroute, -⟩, hnone, -⟩ | ⟨hquiet, hsame⟩ :=
    step_cases d hash s r
  · constructor
    · intro h auth' hauth' fields' hr'
      have hfields : fields' = fields := Body.object.inj (hr'.2.1.symm.trans hr.2.1)
      have hkey : auth' = auth := Option.some.inj (hauth'.symm.trans hauth)
      rw [hfields, hkey]
      exact h auth hauth _ (by rw [husers]; exact List.mem_singleton_self _)
    · intro h auth' hauth' user huser
      have hkey : auth' = auth := Option.some.inj (hauth'.symm.trans hauth)
      rw [husers] at huser
      rw [List.mem_singleton.mp huser, hkey]
      exact h auth hauth fields hr
  · refine iff_of_true (hunrecorded hnone) fun auth _ fields hr => ?_
    obtain ⟨v, hv⟩ := hr.1
    rw [hroute] at hv
    cases hv
  · refine iff_of_true (hunrecorded (newUsers_of_components hsame)) fun auth hauth fields hr => ?_
    exact absurd ⟨by rw [Option.mem_def.mp hauth]; rfl, .inl ⟨fields, hr⟩⟩ hquiet

/-- Read-only keys are isolated exactly where none of their requests is a review
of a task that waits or a reset of a budget, and no review names another user. -/
theorem isolated_iff (s : Server) (requests : List Request) :
    s.Isolated d hash requests ↔
      (Steps (step d hash) (ReadOnly d hash) s requests →
        Steps (step d hash) (fun s r => ¬ s.Effective d hash r) s requests) ∧
      Steps (step d hash) (Named d hash) s requests := by
  have huntouched : Always (step d hash) (fun s' => s'.components = s.components) s requests ↔
      Steps (step d hash) (fun s r => ¬ s.Effective d hash r) s requests := by
    refine along_iff_steps (fun _ => True) (fun _ _ _ => trivial) (fun s' r _ hs' => ?_) trivial ?_
      requests
    · rw [← components_step, hs', and_iff_left trivial]
    · rfl
  have hattributed : Steps (step d hash) (Attributed d hash) s requests ↔
      Steps (step d hash) (Named d hash) s requests := by
    constructor
    · exact fun h => h.imp (fun _ h => h) fun s r => (attributed_iff d hash s r).mp
    · exact fun h => h.imp (fun _ h => h) fun s r => (attributed_iff d hash s r).mpr
  constructor
  · rintro ⟨h, ha⟩
    exact ⟨fun hread => huntouched.mp (h hread), hattributed.mp ha⟩
  · rintro ⟨h, ha⟩
    exact ⟨fun hread => huntouched.mpr (h hread), hattributed.mpr ha⟩

end

/-- The directory of keys that the sample server was given. -/
def sampleDirectories : Directories where
  keysDir := ["keys"]
  isDir dir := dir = [] ∨ dir = ["keys"]

/-- The manager after create_key has made the key pdmk_1 for a viewer. -/
def sampleAuth : AuthManager :=
  let viewer : Creation :=
    { name := "viewer", role := roleReadonly, suffix := "0f1e2d3c", token := "1", now := 0 }
  match ({} : AuthManager).createKey sampleDirectories id id viewer with
  | .ok (m, _, _) => m
  | .error _ => {}

/-- A task waits for a reviewer. -/
def sampleServer : Server where
  authManager := sampleAuth
  approvalGate := some { paused := AList.singleton "task-1" { taskId := "task-1", pausedAt := 0 } }

/-- A read-only key approves the task in the name of another user. -/
def sampleApproval : Request where
  method := .post
  path := "/api/v1/human/approve"
  authorization := "Bearer pdmk_1"
  body := .object [("task_id", .text "task-1"), ("user_id", .text "ceo")]
  now := 1

theorem not_isolated : ¬ sampleServer.Isolated sampleDirectories id [sampleApproval] ∧
    ¬ Steps (step sampleDirectories id) (Attributed sampleDirectories id) sampleServer
      [sampleApproval] := by
  have husers : sampleServer.newUsers (sampleServer.step sampleDirectories id sampleApproval) =
      [.text "ceo"] := by
    decide +kernel
  have hauth : sampleServer.served sampleDirectories id sampleApproval =
      some { valid := true, role := roleReadonly, name := "viewer", keyId := "viewer-0f1e2d3c" } := by
    decide +kernel
  refine ⟨fun h => ?_, fun h => ?_⟩
  · have hsame := (h.untouched ⟨trivial, ?_, trivial⟩).2.2
    · rw [newUsers_of_components hsame] at husers
      cases husers
    · exact ⟨_, (Option.filter_eq_some_iff.mp hauth).1, rfl, rfl⟩
  · have hnamed := h.2.1 _ hauth (.text "ceo") (by rw [husers]; exact List.mem_singleton_self _)
    revert hnamed
    decide +kernel

end Prodinamik.Access.Server
