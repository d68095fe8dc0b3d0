import Prodinamik.Runs.Moves
import Prodinamik.Runs.OneWay

namespace Prodinamik.Runs

open Machine Lib.Text Lib.Run Relation

theorem pad_no_space (w n : Nat) : ∀ c ∈ Lib.Decimal.pad w n, isSpace c = false := by
  induction w generalizing n with
  | zero => exact fun c hc => absurd hc List.not_mem_nil
  | succ w ih =>
      intro c hc
      obtain hc | hc := List.mem_append.mp hc
      · exact ih _ c hc
      · rw [List.mem_singleton.mp hc]
        exact digitChar_not_space (Nat.mod_lt n (by decide))

theorem DateTime.isoformat_no_space (t : DateTime) : ∀ c ∈ t.isoformat.toList, isSpace c = false := by
  rw [isoformat_toList, isoSeconds, clock, fraction]
  intro c hc
  simp only [List.mem_append, List.mem_cons] at hc
  obtain (hc | rfl | hc | rfl | hc | rfl | hc | rfl | hc | rfl | hc) | hc := hc
  all_goals first | exact pad_no_space _ _ c hc | decide | skip
  split at hc
  · cases hc
  · obtain rfl | hc := List.mem_cons.mp hc
    · decide
    · exact pad_no_space _ _ c hc

theorem plain_of_no_space {value : String} (h : ∀ c ∈ value.toList, isSpace c = false) :
    Plain value :=
  ⟨fun hc => absurd (h _ hc) (by decide), fun hc => absurd (h _ hc) (by decide),
    strip_of_no_space h⟩

/-- The transitions that are recorded for a run, from the initial state to the
state it is in. -/
inductive RecordedPath (sm : StateMachine) : List (String × String) → String → Prop
  | start {initial : StateDefinition} (h : initial ∈ sm.config.initialStates) :
      RecordedPath sm [("", initial.name)] initial.name
  | step {events : List (String × String)} {a b : String} (h : RecordedPath sm events a)
      (hstep : sm.Step a b) : RecordedPath sm (events ++ [(a, b)]) b

theorem RecordedPath.last {sm : StateMachine} {events : List (String × String)}
    {e : String × String} {state : String} (h : RecordedPath sm (events ++ [e]) state)
    (hevents : events ≠ []) : sm.Step e.1 e.2 := by
  generalize hall : events ++ [e] = all at h
  cases h with
  | start =>
      obtain ⟨hnil, -⟩ := List.append_inj' (hall.trans (List.nil_append _).symm) rfl
      exact absurd hnil hevents
  | step _ hstep =>
      obtain ⟨-, he⟩ := List.append_inj' hall rfl
      rw [List.singleton_inj.mp he]
      exact hstep

/-- The metadata that create_run writes. -/
def RunMeta.created (p : ProductProfile) (title slug state : String) (now : DateTime) : RunMeta where
  slug := slug
  profile := p.name
  title := title
  createdAt := now.isoformat
  updatedAt := now.isoformat
  state := state

/-- A run was created in an initial state of its profile's machine. -/
structure Created (s s' : AsyncEngine) (p : ProductProfile) (title slug : String) (now : DateTime)
    (sm : StateMachine) (initial : StateDefinition) : Prop where
  machine : p.stateMachine = some sm
  first : initial ∈ sm.config.initialStates
  missing : (s.disk.active slug).bind RunDir.content = none
  active : s'.disk.active = Function.update s.disk.active slug
    (some ⟨some (RunMeta.created p title slug initial.name now).write⟩)
  events : s'.events = Function.update s.events slug (s.events slug ++ [("", initial.name)])

section

variable (digest : WalEntry → String) (registry : Registry)

theorem AsyncEngine.createRun_cases (s : AsyncEngine) (profileName title slug : String)
    (t : Moment) :
    (∃ e, s.createRun digest registry profileName title slug t = (.error e, s)) ∨
      ∃ m p sm initial, registry.profile profileName = some p ∧
        (s.createRun digest registry profileName title slug t).1 = .ok m ∧
        Created s (s.createRun digest registry profileName title slug t).2 p title slug t.now sm
          initial := by
  rw [createRun]
  cases hprofile : registry.profile profileName with
  | none => exact .inl ⟨_, rfl⟩
  | some p =>
      simp only
      rw [Runs.createRun]
      cases hsm : p.stateMachine with
      | none => exact .inl ⟨_, rfl⟩
      | some sm =>
          simp only
          by_cases hmissing : ((s.disk.active slug).bind RunDir.content).isSome
          · rw [if_pos hmissing]
            exact .inl ⟨_, rfl⟩
          · rw [if_neg hmissing]
            cases hinitial : sm.config.initialStates with
            | nil => exact .inl ⟨_, rfl⟩
            | cons initial rest =>
                refine .inr ⟨_, p, sm, initial, rfl, rfl, hsm, ?_, by simpa using hmissing, ?_, rfl⟩
                · rw [hinitial]
                  exact List.mem_cons_self
                · simp [Disk.performAll, Disk.perform, appendWal, updateSnapshot, record,
                    trackEntry, RunMeta.created]

/-- An engine and the profile with which each of its runs was created. -/
structure Session where
  engine : AsyncEngine := {}
  owner : String → Option ProductProfile := fun _ => none

inductive Request
  | create (profileName title slug : String) (t : Moment)
  | transition (slug toState : String) (overrides : List Override) (t : Moment)
  | transitionWithHitl (slug toState : String) (hitlLoopCount : Nat) (t : Moment)
  | resume (slug : String) (answers : List String) (t : Moment)
  | checkTimeouts (dirs : List String) (now : Int) (times : String → Moment)

variable (fromisoformat : String → Option Int)

namespace Session

def handle (s : Session) : Request → Session
  | .create profileName title slug t =>
    match s.engine.createRun digest registry profileName title slug t with
    | (.error _, engine) => { s with engine := engine }
    | (.ok _, engine) =>
        { engine := engine
          owner := Function.update s.owner slug (registry.profile profileName) }
  | .transition slug toState overrides t =>
      { s with engine := (s.engine.doTransition digest registry slug toState overrides t).2 }
  | .transitionWithHitl slug toState hitlLoopCount t =>
      { s with
        engine := (s.engine.transitionWithHitl digest registry slug toState hitlLoopCount t).2 }
  | .resume slug answers t =>
      { s with engine := (s.engine.resumeRun digest registry slug answers t).2 }
  | .checkTimeouts dirs now times =>
      { s with
        engine := s.engine.checkTimeouts digest registry fromisoformat dirs now times }

/-- Every run that was created is where its recorded path through the machine
of its profile ends. -/
def OnPaths (s : Session) : Prop :=
  ∀ slug, ∀ p ∈ s.owner slug, ∃ sm ∈ p.stateMachine, ∃ state,
    currentState s.engine.disk slug = some state ∧ RecordedPath sm (s.engine.events slug) state

end Session

/-- Where a run is created its states are read back as they are written, and no
other profile is read back from the lines of the profile and the title. -/
def Request.ReadBack : Request → Prop
  | .create profileName title _ _ =>
      ∀ p ∈ registry.profile profileName, (∀ sm ∈ p.stateMachine, PlainStates sm) ∧
        ∀ p' ∈ registry.profile (RunMeta.profileRead p.name title), p' = p
  | _ => True

end

/-- A run that was never created. -/
structure Absent (s : AsyncEngine) (slug : String) : Prop where
  active : s.disk.active slug = none
  events : s.events slug = []

/-- A run that follows the machine of its profile. -/
structure Follows (registry : Registry) (s : AsyncEngine) (slug : String) (p : ProductProfile)
    (sm : StateMachine) : Prop where
  machine : p.stateMachine = some sm
  plain : PlainStates sm
  here : ∃ state version, HoldsMeta True (s.disk.active slug) state version ∧
    RecordedPath sm (s.events slug) state
  profile : ∀ dir m p', s.disk.active slug = some dir → Disk.readMeta slug dir = .ok (some m) →
    registry.profile m.profile = some p' → p' = p

/-- What is read from the metadata of an active run. -/
theorem HoldsMeta.read {slug state : String} {version : Nat} {dir : RunDir} {m : RunMeta}
    (h : HoldsMeta True (some dir) state version) (hread : Disk.readMeta slug dir = .ok (some m)) :
    m.state = state ∧ m.version = version ∧ m.status = "active" ∧
      (∃ n : Nat, m.iterationCount = n) ∧ Plain m.profile ∧ Plain m.title ∧ Plain m.createdAt := by
  obtain ⟨w, hdir, rfl, hversion, ⟨n, hn⟩, hplain⟩ := h
  obtain ⟨hstate, hactive⟩ := hplain trivial
  obtain ⟨m', hm', hstatus, hstate', hversion', hiteration⟩ := RunMeta.read_write hversion hn
    (by rw [hactive]; decide) hstate slug
  rw [Option.some.injEq] at hdir
  subst hdir
  rw [Disk.readMeta] at hread
  simp only [hm'] at hread
  cases hread
  obtain ⟨hprofile, htitle, hcreated⟩ := RunMeta.plain_of_read hm'
  exact ⟨hstate', hversion', hstatus.trans hactive, ⟨n, hiteration⟩, hprofile, htitle, hcreated⟩

theorem RunMeta.leaving_cases (m : RunMeta) :
    m.leaving = m ∨ m.leaving = { m with iterationCount := m.iterationCount + 1 } := by
  rw [leaving]
  split
  · exact .inr rfl
  · exact .inl rfl

/-- An update of what was read keeps the profile. -/
theorem HoldsMeta.updated {slug state toState : String} {version : Nat} {dir : RunDir}
    {m : RunMeta} (h : HoldsMeta True (some dir) state version)
    (hread : Disk.readMeta slug dir = .ok (some m)) (hplain : Plain toState) (now : DateTime) :
    HoldsMeta True (some ⟨some (m.updated toState now).write⟩) toState (version + 1) ∧
      ∀ m', Disk.readMeta slug ⟨some (m.updated toState now).write⟩ = .ok (some m') →
        m'.profile = m.profile := by
  obtain ⟨-, hversion, hstatus, ⟨n, hn⟩, hprofile, htitle, hcreated⟩ := h.read hread
  obtain ⟨k, hk⟩ : ∃ k : Nat, m.leaving.iterationCount = k := by
    obtain heq | heq := m.leaving_cases
    · exact ⟨n, by rw [heq, hn]⟩
    · exact ⟨n + 1, by rw [heq, hn]; rfl⟩
  have hkeep : m.leaving.version = m.version ∧ m.leaving.status = m.status ∧
      m.leaving.profile = m.profile ∧ m.leaving.title = m.title ∧
      m.leaving.createdAt = m.createdAt := by
    obtain heq | heq := m.leaving_cases <;> rw [heq] <;> exact ⟨rfl, rfl, rfl, rfl, rfl⟩
  obtain ⟨hversion', hstatus', hprofile', htitle', hcreated'⟩ := hkeep
  have hnext : (m.updated toState now).version = ((version + 1 : Nat) : Int) := by
    rw [RunMeta.updated, hversion', hversion]
    rfl
  refine ⟨⟨m.updated toState now, rfl, rfl, hnext, ⟨k, hk⟩, fun _ => ⟨hplain, ?_⟩⟩, ?_⟩
  · rw [RunMeta.updated, hstatus', hstatus]
  · intro m' hm'
    rw [Disk.readMeta] at hm'
    simp only at hm'
    split at hm'
    · cases hm'
    · rename_i hwritten
      cases hm'
      rw [RunMeta.read_profile hnext hk (by rw [RunMeta.updated, hcreated']; exact hcreated)
        (plain_of_no_space now.isoformat_no_space)
        (by rw [RunMeta.updated, hstatus', hstatus]; decide) hplain hwritten]
      rw [RunMeta.updated, hprofile', htitle']
      exact RunMeta.profileRead_of_plain hprofile htitle

variable {digest : WalEntry → String} {registry : Registry}

theorem Absent.move {s s' : AsyncEngine} {slug : String} (h : Absent s slug)
    (hmove : Move registry s s') : Absent s' slug := by
  cases hmove with
  | quiet hquiet => exact ⟨by rw [hquiet.active, h.active], by rw [hquiet.events, h.events]⟩
  | @moved slug' toState overrides now dir m p hmoved =>
      have hne : slug ≠ slug' := by
        rintro rfl
        exact absurd (hmoved.here.symm.trans h.active) nofun
      refine ⟨?_, ?_⟩
      · rw [hmoved.active, Function.update_of_ne hne, h.active]
      · rw [hmoved.events, Function.update_of_ne hne, h.events]

theorem Follows.congr {s s' : AsyncEngine} {slug : String} {p : ProductProfile} {sm : StateMachine}
    (h : Follows registry s slug p sm) (hactive : s'.disk.active slug = s.disk.active slug)
    (hevents : s'.events slug = s.events slug) : Follows registry s' slug p sm := by
  refine ⟨h.machine, h.plain, ?_, ?_⟩
  · rw [hactive, hevents]
    exact h.here
  · rw [hactive]
    exact h.profile

theorem Follows.move {s s' : AsyncEngine} {slug : String} {p : ProductProfile} {sm : StateMachine}
    (h : Follows registry s slug p sm) (hmove : Move registry s s') :
    Follows registry s' slug p sm := by
  cases hmove with
  | quiet hquiet => exact h.congr (by rw [hquiet.active]) (by rw [hquiet.events])
  | @moved slug' toState overrides now dir m p' hmoved =>
      by_cases hslug : slug = slug'
      · subst hslug
        obtain ⟨state, version, hholds, hrecorded⟩ := h.here
        rw [hmoved.here] at hholds
        obtain rfl : m.state = state := (hholds.read hmoved.read).1
        obtain rfl : p' = p := h.profile dir m p' hmoved.here hmoved.read hmoved.profile
        have hstep : sm.Step m.state toState := hmoved.step h.machine
        obtain ⟨⟨e, he, -, hto⟩, -⟩ := id hstep
        have hplain : Plain toState := h.plain.plain (hto ▸ (sm.declared he).1)
        obtain ⟨hupdated, hprofile⟩ := hholds.updated hmoved.read hplain now
        refine ⟨h.machine, h.plain, ⟨toState, version + 1, ?_, ?_⟩, ?_⟩
        · rwa [hmoved.active, Function.update_self]
        · rw [hmoved.events, Function.update_self]
          exact hrecorded.step hstep
        · intro dir' m' p' hdir' hread' hp'
          rw [hmoved.active, Function.update_self] at hdir'
          cases hdir'
          rw [hprofile m' hread'] at hp'
          exact h.profile dir m p' hmoved.here hmoved.read hp'
      · refine h.congr ?_ ?_
        · rw [hmoved.active, Function.update_of_ne hslug]
        · rw [hmoved.events, Function.update_of_ne hslug]

/-- Every run is absent or follows the machine of its profile. -/
def Session.Tracked (registry : Registry) (s : Session) : Prop :=
  ∀ slug, match s.owner slug with
    | none => Absent s.engine slug
    | some p => ∃ sm, Follows registry s.engine slug p sm

theorem Session.Tracked.moves {s : Session} (h : s.Tracked registry) {engine : AsyncEngine}
    (hmoves : Moves registry s.engine engine) : Session.Tracked registry { s with engine := engine } := by
  intro slug
  have hslug := h slug
  change match s.owner slug with
    | none => Absent engine slug
    | some p => ∃ sm, Follows registry engine slug p sm
  cases howner : s.owner slug with
  | none =>
      rw [howner] at hslug
      induction hmoves with
      | refl => exact hslug
      | tail _ hmove ih => exact ih.move hmove
  | some p =>
      rw [howner] at hslug
      obtain ⟨sm, hfollows⟩ := hslug
      refine ⟨sm, ?_⟩
      induction hmoves with
      | refl => exact hfollows
      | tail _ hmove ih => exact ih.move hmove

/-- A run that was created follows the machine of its profile. -/
theorem Created.follows {s s' : AsyncEngine} {p : ProductProfile} {title slug : String}
    {now : DateTime} {sm : StateMachine} {initial : StateDefinition}
    (h : Created s s' p title slug now sm initial) (habsent : Absent s slug)
    (hplain : PlainStates sm)
    (hprofile : ∀ p' ∈ registry.profile (RunMeta.profileRead p.name title), p' = p) :
    Follows registry s' slug p sm := by
  have hstate : Plain initial.name := hplain.plain (sm.initial_declared h.first)
  have hnow : Plain now.isoformat := plain_of_no_space now.isoformat_no_space
  refine ⟨h.machine, hplain, ⟨initial.name, 0, ?_, ?_⟩, ?_⟩
  · rw [h.active, Function.update_self]
    exact ⟨_, rfl, rfl, rfl, ⟨0, rfl⟩, fun _ => ⟨hstate, rfl⟩⟩
  · rw [h.events, Function.update_self, habsent.events]
    exact .start h.first
  · intro dir m p' hdir hread hp'
    rw [h.active, Function.update_self] at hdir
    cases hdir
    rw [Disk.readMeta] at hread
    simp only at hread
    split at hread
    · cases hread
    · rename_i hwritten
      cases hread
      have hzero : ((0 : Nat) : Int) = 0 := rfl
      have hname := RunMeta.read_profile (m := RunMeta.created p title slug initial.name now)
        hzero.symm hzero.symm hnow hnow (by decide : Plain "active") hstate hwritten
      rw [hname] at hp'
      exact hprofile p' hp'

/-- No metadata was there, so the run of the slug was never created. -/
theorem Session.Tracked.absent {s : Session} (h : s.Tracked registry) {slug : String}
    (hmissing : (s.engine.disk.active slug).bind RunDir.content = none) : Absent s.engine slug := by
  have hslug := h slug
  cases howner : s.owner slug with
  | none =>
      rw [howner] at hslug
      exact hslug
  | some p =>
      rw [howner] at hslug
      obtain ⟨_, hfollows⟩ := hslug
      obtain ⟨_, _, ⟨m, hdir, -⟩, -⟩ := hfollows.here
      rw [hdir] at hmissing
      cases hmissing

theorem Session.Tracked.create {s : Session} (h : s.Tracked registry) {engine : AsyncEngine}
    {p : ProductProfile} {title slug : String} {now : DateTime} {sm : StateMachine}
    {initial : StateDefinition} (hcreated : Created s.engine engine p title slug now sm initial)
    (hplain : PlainStates sm)
    (hprofile : ∀ p' ∈ registry.profile (RunMeta.profileRead p.name title), p' = p) :
    Session.Tracked registry ⟨engine, Function.update s.owner slug (some p)⟩ := by
  intro slug'
  simp only
  by_cases hslug : slug' = slug
  · subst hslug
    rw [Function.update_self]
    exact ⟨sm, hcreated.follows (h.absent hcreated.missing) hplain hprofile⟩
  · rw [Function.update_of_ne hslug]
    have hold := h slug'
    have hactive : engine.disk.active slug' = s.engine.disk.active slug' := by
      rw [hcreated.active, Function.update_of_ne hslug]
    have hevents : engine.events slug' = s.engine.events slug' := by
      rw [hcreated.events, Function.update_of_ne hslug]
    cases howner : s.owner slug' with
    | none =>
        rw [howner] at hold
        exact ⟨by rw [hactive, hold.active], by rw [hevents, hold.events]⟩
    | some q =>
        rw [howner] at hold
        obtain ⟨sm', hfollows⟩ := hold
        exact ⟨sm', hfollows.congr hactive hevents⟩

theorem Session.Tracked.handle {fromisoformat : String → Option Int} {s : Session} {r : Request}
    (h : s.Tracked registry) (hread : r.ReadBack registry) :
    (s.handle digest registry fromisoformat r).Tracked registry := by
  cases r with
  | transition slug toState overrides t =>
      exact h.moves (.single (s.engine.doTransition_move digest registry slug toState overrides t))
  | transitionWithHitl slug toState hitlLoopCount t =>
      exact h.moves (.single (s.engine.transitionWithHitl_move digest registry slug toState
        hitlLoopCount t))
  | resume slug answers t =>
      exact h.moves (.single (s.engine.resumeRun_move digest registry slug answers t))
  | checkTimeouts dirs now times =>
      exact h.moves (s.engine.checkTimeouts_moves digest registry fromisoformat dirs now times)
  | create profileName title slug t =>
      rw [Session.handle]
      obtain ⟨e, he⟩ | ⟨m, p, sm, initial, hprofile, hm, hcreated⟩ :=
        s.engine.createRun_cases digest registry profileName title slug t
      · rw [he]
        exact h
      · generalize hresult : s.engine.createRun digest registry profileName title slug t = result
          at hm hcreated
        obtain ⟨answer, engine⟩ := result
        simp only at hm hcreated
        subst hm
        obtain ⟨hplain, hback⟩ := hread p hprofile
        simp only [hprofile]
        exact h.create hcreated (hplain sm hcreated.machine) hback

theorem Session.Tracked.onPaths {s : Session} (h : s.Tracked registry) : s.OnPaths := by
  intro slug p hp
  have hslug := h slug
  rw [Option.mem_def.mp hp] at hslug
  obtain ⟨sm, hfollows⟩ := hslug
  obtain ⟨state, version, hholds, hrecorded⟩ := hfollows.here
  exact ⟨sm, hfollows.machine, state, currentState_of_holdsMeta hholds, hrecorded⟩

/-- Every run follows the machine of its profile as long as runs are created so
that their states and their profile are read back. -/
theorem always_on_paths (digest : WalEntry → String) (registry : Registry)
    (fromisoformat : String → Option Int) {requests : List Request}
    (h : Steps (Session.handle digest registry fromisoformat) (fun _ r => r.ReadBack registry) {}
      requests) :
    Always (Session.handle digest registry fromisoformat) Session.OnPaths {} requests := by
  have hempty : Session.Tracked registry {} := fun slug => ⟨rfl, rfl⟩
  exact Along.imp (fun _ h => h.onPaths) (fun _ _ _ => trivial)
    (along_of_invariant (fun _ _ h hread => h.handle hread) hempty h)

/-- A handbook is reviewed before it is done. -/
def handbook : StateMachine where
  config :=
    { states :=
        [("draft", .once "draft" .initial),
          ("review", .once "review" .intermediate),
          ("done", .once "done" .terminal)]
      transitions :=
        [{ fromState := "draft", toState := "review" },
          { fromState := "review", toState := "done" }]
      nodup := by decide }
  accepted := by decide

/-- A notice is done at once. -/
def notice : StateMachine where
  config :=
    { states :=
        [("draft", .once "draft" .initial),
          ("done", .once "done" .terminal)]
      transitions := [{ fromState := "draft", toState := "done" }]
      nodup := by decide }
  accepted := by decide

def handbooksAndNotices : Registry where
  profiles := [⟨"handbooks", some handbook⟩, ⟨"notices", some notice⟩]
  nodup := by decide

/-- The second line of the title is read back as the profile. -/
theorem not_always_on_paths : ¬ ∀ (digest : WalEntry → String) (registry : Registry)
    (fromisoformat : String → Option Int) (requests : List Request),
    Always (Session.handle digest registry fromisoformat) Session.OnPaths {} requests := by
  intro h
  have hpaths := (h (fun _ => "") handbooksAndNotices (fun _ => none)
    [.create "handbooks" "A\nprofile: notices" "a" reviewTime,
      .transition "a" "done" [] reviewTime]).last
  obtain ⟨sm, hsm, state, -, hpath⟩ := hpaths "a" ⟨"handbooks", some handbook⟩ (by rfl)
  obtain rfl : handbook = sm := Option.some.inj hsm
  have hevents : (List.foldl (Session.handle (fun _ => "") handbooksAndNotices fun _ => none) {}
      [.create "handbooks" "A\nprofile: notices" "a" reviewTime,
        .transition "a" "done" [] reviewTime]).engine.events "a" =
      [("", "draft")] ++ [("draft", "done")] := by decide +kernel
  rw [hevents] at hpath
  obtain ⟨⟨t, ht, hfrom, hto⟩, -⟩ := hpath.last (List.cons_ne_nil _ _)
  revert t
  decide

theorem always_on_paths_handbooks :
    Steps (Session.handle (fun _ => "") handbooksAndNotices fun _ => none)
        (fun _ r => r.ReadBack handbooksAndNotices) {}
        [.create "handbooks" "A" "a" reviewTime, .transition "a" "review" [] reviewTime] ∧
      Always (Session.handle (fun _ => "") handbooksAndNotices fun _ => none) Session.OnPaths {}
        [.create "handbooks" "A" "a" reviewTime, .transition "a" "review" [] reviewTime] := by
  have hread : Steps (Session.handle (fun _ => "") handbooksAndNotices fun _ => none)
      (fun _ r => r.ReadBack handbooksAndNotices) {}
      [.create "handbooks" "A" "a" reviewTime, .transition "a" "review" [] reviewTime] := by
    refine ⟨trivial, ?_, trivial, trivial, trivial⟩
    rintro p hp
    obtain rfl : ⟨"handbooks", some handbook⟩ = p := Option.some.inj hp
    refine ⟨?_, ?_⟩
    · rintro sm hsm
      obtain rfl : handbook = sm := Option.some.inj hsm
      decide
    · intro p' hp'
      rw [RunMeta.profileRead_of_plain (by decide) (by decide)] at hp'
      exact (Option.some.inj hp').symm
  exact ⟨hread, always_on_paths (fun _ => "") handbooksAndNotices (fun _ => none) hread⟩

end Prodinamik.Runs
