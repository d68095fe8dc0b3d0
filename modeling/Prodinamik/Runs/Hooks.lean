import Prodinamik.Lib.Run
import Prodinamik.Plugins.PluginRegistry
import Prodinamik.Runs.Resume

namespace Prodinamik.Runs

open Lib.Run Machine Plugins

/-- What handlers do: the engine that one leaves, and whether it raises. -/
abbrev Behaviour := Handler → AsyncEngine → AsyncEngine × Bool

/-- What triggering handlers comes to; an exception escapes where the message
about a failed handler cannot name it. -/
structure Triggered where
  engine : AsyncEngine
  ran : List Handler
  escaped : Bool

def runHandlers (run : Behaviour) : List Handler → AsyncEngine → Triggered
  | [], s => ⟨s, [], false⟩
  | h :: hs, s =>
      if (run h s).2 ∧ h.name = none then ⟨(run h s).1, [h], true⟩
      else
        let rest := runHandlers run hs (run h s).1
        { rest with ran := h :: rest.ran }

theorem ran_runHandlers {run : Behaviour} {hs : List Handler} {s : AsyncEngine}
    (h : (runHandlers run hs s).escaped = false) : (runHandlers run hs s).ran = hs := by
  induction hs generalizing s with
  | nil => rfl
  | cons head rest ih =>
      rw [runHandlers] at h ⊢
      by_cases hraise : (run head s).2 ∧ head.name = none
      · rw [if_pos hraise] at h
        cases h
      · rw [if_neg hraise] at h ⊢
        exact congrArg (head :: ·) (ih h)

section Hooked

variable (digest : WalEntry → String) (registry : Registry) (hooks : HookRegistry)
  (isCoroutine : Handler → Bool)

def onEnter (state : String) : List Handler := hooks.handlers state "on_enter"

/-- HookRegistry.trigger -/
def trigger (run : Behaviour) (state hookType : String) (s : AsyncEngine) : Triggered :=
  runHandlers run (hooks.handlers state hookType) s

def triggerSync (run : Behaviour) (state hookType : String) (s : AsyncEngine) : Triggered :=
  runHandlers run ((hooks.handlers state hookType).filter fun h => !isCoroutine h) s

inductive EntryError
  | engine (message : String)
  | handler
  deriving DecidableEq, Repr

/-- What a call comes to, with the on_enter handlers that it ran. -/
structure Entered where
  result : Except EntryError RunMeta
  engine : AsyncEngine
  ran : List Handler := []

namespace AsyncEngine

def createRunHooked (s : AsyncEngine) (run : Behaviour) (profileName title slug : String)
    (t : Moment) : Entered :=
  match s.createRun digest registry profileName title slug t with
  | (.error e, s) => ⟨.error (.engine e), s, []⟩
  | (.ok m, s) =>
      let enter := triggerSync hooks isCoroutine run m.state "on_enter" s
      ⟨if enter.escaped then .error .handler else .ok m, enter.engine, enter.ran⟩

def createRunAsync (s : AsyncEngine) (run : Behaviour) (profileName title slug : String)
    (t : Moment) : Entered :=
  let created := s.createRunHooked digest registry hooks isCoroutine run profileName title slug t
  match created.result with
  | .error _ => created
  | .ok m =>
      let enter := trigger hooks run m.state "on_enter" created.engine
      ⟨if enter.escaped then .error .handler else .ok m, enter.engine, created.ran ++ enter.ran⟩

/-- _do_transition with its hooks. -/
def doTransitionHooked (s : AsyncEngine) (run : Behaviour) (slug toState : String)
    (overrides : List Override) (t : Moment) : Entered :=
  match s.disk.getRun slug with
  | .error e => ⟨.error (.engine e), s, []⟩
  | .ok none => ⟨.error (.engine (runNotFound slug)), s, []⟩
  | .ok (some m) =>
    match registry.profile m.profile with
    | none => ⟨.error (.engine ("Profile '" ++ m.profile ++ "' not found")), s, []⟩
    | some p =>
        let exit := triggerSync hooks isCoroutine run m.state "on_exit" s
        if exit.escaped then ⟨.error .handler, exit.engine, []⟩
        else
          match updateState digest exit.engine.disk slug toState (some p) overrides t.now
              t.walTime with
          | .error e => ⟨.error (.engine e), exit.engine, []⟩
          | .ok (writes, m') =>
              let s := { exit.engine with disk := exit.engine.disk.performAll writes }.record slug
                m.state toState t
              let enter := triggerSync hooks isCoroutine run toState "on_enter" s
              ⟨if enter.escaped then .error .handler else .ok m', enter.engine, enter.ran⟩

def transitionAsync (s : AsyncEngine) (run : Behaviour) (slug toState : String) (t : Moment) :
    Entered :=
  s.doTransitionHooked digest registry hooks isCoroutine run slug toState [] t

end AsyncEngine

/-- The calls that enter a state. -/
inductive EntryKind
  | createRun
  | createRunAsync
  | doTransition
  | transitionAsync
  deriving DecidableEq, Repr

structure Entry where
  kind : EntryKind
  state : String
  ran : List Handler
  deriving DecidableEq, Repr

inductive EntryCall
  | createRun (profileName title slug : String) (t : Moment) (run : Behaviour)
  | createRunAsync (profileName title slug : String) (t : Moment) (run : Behaviour)
  | doTransition (slug toState : String) (overrides : List Override) (t : Moment) (run : Behaviour)
  | transitionAsync (slug toState : String) (t : Moment) (run : Behaviour)

/-- An engine and its successful entries so far. -/
structure HookedEngine where
  engine : AsyncEngine
  entries : List Entry := []

namespace EntryCall

def kind : EntryCall → EntryKind
  | createRun .. => .createRun
  | createRunAsync .. => .createRunAsync
  | doTransition .. => .doTransition
  | transitionAsync .. => .transitionAsync

def perform (s : AsyncEngine) : EntryCall → Entered
  | createRun profileName title slug t run =>
      s.createRunHooked digest registry hooks isCoroutine run profileName title slug t
  | createRunAsync profileName title slug t run =>
      s.createRunAsync digest registry hooks isCoroutine run profileName title slug t
  | doTransition slug toState overrides t run =>
      s.doTransitionHooked digest registry hooks isCoroutine run slug toState overrides t
  | transitionAsync slug toState t run =>
      s.transitionAsync digest registry hooks isCoroutine run slug toState t

/-- The state that a call enters. -/
def entered (c : EntryCall) (m : RunMeta) : String :=
  match c with
  | createRun .. => m.state
  | createRunAsync .. => m.state
  | doTransition _ toState .. => toState
  | transitionAsync _ toState .. => toState

end EntryCall

namespace HookedEngine

def call (s : HookedEngine) (c : EntryCall) : HookedEngine :=
  let e := c.perform digest registry hooks isCoroutine s.engine
  match e.result with
  | .error _ => { s with engine := e.engine }
  | .ok m => ⟨e.engine, s.entries ++ [⟨c.kind, c.entered m, e.ran⟩]⟩

end HookedEngine

/-- Every handler of the state ran once for each time it is registered; a
synchronous entry is about the synchronous ones. -/
def Once (e : Entry) : Prop :=
  match e.kind with
  | .createRun | .doTransition =>
      ∀ h, ¬ isCoroutine h → e.ran.count h = (onEnter hooks e.state).count h
  | .createRunAsync | .transitionAsync =>
      ∀ h, e.ran.count h = (onEnter hooks e.state).count h

/-- No synchronous handler where a run is created asynchronously, and no
coroutine function where a transition is made so. -/
def Fits (kind : EntryKind) (state : String) : Prop :=
  match kind with
  | .createRun | .doTransition => True
  | .createRunAsync => ∀ h ∈ onEnter hooks state, isCoroutine h
  | .transitionAsync => ∀ h ∈ onEnter hooks state, ¬ isCoroutine h

/-- A call fits if the state that it enters, where it succeeds, does. -/
def HookedEngine.Fitting (s : HookedEngine) (c : EntryCall) : Prop :=
  ∀ m, (c.perform digest registry hooks isCoroutine s.engine).result = .ok m →
    Fits hooks isCoroutine c.kind (c.entered m)

end Hooked

section Proofs

variable {digest : WalEntry → String} {registry : Registry} {hooks : HookRegistry}
  {isCoroutine : Handler → Bool}

/-- The handlers that a successful call of a kind has run. -/
def handlersRun (hooks : HookRegistry) (isCoroutine : Handler → Bool) (kind : EntryKind)
    (state : String) : List Handler :=
  match kind with
  | .createRunAsync => (onEnter hooks state).filter (fun h => !isCoroutine h) ++ onEnter hooks state
  | .createRun | .doTransition | .transitionAsync =>
      (onEnter hooks state).filter fun h => !isCoroutine h

theorem ok_of_escaped {m m' : RunMeta} {escaped : Bool}
    (h : (if escaped then .error .handler else .ok m : Except EntryError RunMeta) = .ok m') :
    escaped = false ∧ m = m' := by
  cases escaped with
  | true => cases h
  | false => exact ⟨rfl, Except.ok.inj h⟩

theorem ran_createRunHooked {s : AsyncEngine} {run : Behaviour} {profileName title slug : String}
    {t : Moment} {m : RunMeta}
    (h : (s.createRunHooked digest registry hooks isCoroutine run profileName title slug t).result =
      .ok m) :
    (s.createRunHooked digest registry hooks isCoroutine run profileName title slug t).ran =
      (onEnter hooks m.state).filter fun h => !isCoroutine h := by
  rw [AsyncEngine.createRunHooked] at h ⊢
  split at h
  case h_1 => cases h
  case h_2 m' s' _ =>
    obtain ⟨hescaped, rfl⟩ := ok_of_escaped h
    exact ran_runHandlers hescaped

theorem ran_doTransitionHooked {s : AsyncEngine} {run : Behaviour} {slug toState : String}
    {overrides : List Override} {t : Moment} {m : RunMeta}
    (h : (s.doTransitionHooked digest registry hooks isCoroutine run slug toState overrides
      t).result = .ok m) :
    (s.doTransitionHooked digest registry hooks isCoroutine run slug toState overrides t).ran =
      (onEnter hooks toState).filter fun h => !isCoroutine h := by
  rw [AsyncEngine.doTransitionHooked] at h ⊢
  split at h
  case h_1 => cases h
  case h_2 => cases h
  case h_3 m₀ _ =>
    split at h
    case h_1 => cases h
    case h_2 p _ =>
      dsimp only at h ⊢
      by_cases hexit : (triggerSync hooks isCoroutine run m₀.state "on_exit" s).escaped = true
      · rw [if_pos hexit] at h
        cases h
      · rw [if_neg hexit] at h ⊢
        split at h
        case h_1 => cases h
        case h_2 writes m' _ => exact ran_runHandlers (ok_of_escaped h).1

theorem ran_perform {s : AsyncEngine} {c : EntryCall} {m : RunMeta}
    (h : (c.perform digest registry hooks isCoroutine s).result = .ok m) :
    (c.perform digest registry hooks isCoroutine s).ran =
      handlersRun hooks isCoroutine c.kind (c.entered m) := by
  cases c with
  | createRun profileName title slug t run => exact ran_createRunHooked h
  | createRunAsync profileName title slug t run =>
      simp only [EntryCall.perform, AsyncEngine.createRunAsync] at h ⊢
      split at h
      case h_1 hresult =>
        rw [hresult] at h
        cases h
      case h_2 m' hresult =>
        obtain ⟨hescaped, rfl⟩ := ok_of_escaped h
        rw [ran_createRunHooked hresult]
        exact congrArg _ (ran_runHandlers hescaped)
  | doTransition slug toState overrides t run => exact ran_doTransitionHooked h
  | transitionAsync slug toState t run => exact ran_doTransitionHooked h

theorem count_filter_sync {hs : List Handler} {h : Handler} (hsync : ¬ isCoroutine h) :
    (hs.filter fun h => !isCoroutine h).count h = hs.count h :=
  List.count_filter (by simpa using hsync)

/-- What ran is what should have exactly if the entry fits. -/
theorem once_iff_fits (kind : EntryKind) (state : String) :
    Once hooks isCoroutine ⟨kind, state, handlersRun hooks isCoroutine kind state⟩ ↔
      Fits hooks isCoroutine kind state := by
  cases kind with
  | createRun => exact iff_of_true (fun h hsync => count_filter_sync hsync) trivial
  | doTransition => exact iff_of_true (fun h hsync => count_filter_sync hsync) trivial
  | createRunAsync =>
      constructor
      · intro honce h hh
        by_contra hsync
        have hcount : (handlersRun hooks isCoroutine .createRunAsync state).count h =
            (onEnter hooks state).count h := honce h
        rw [handlersRun, List.count_append, count_filter_sync hsync] at hcount
        have hpos := List.count_pos_iff.mpr hh
        omega
      · intro hfits h
        have hnone : ((onEnter hooks state).filter fun h => !isCoroutine h) = [] :=
          List.filter_eq_nil_iff.mpr fun h hh => by simp [hfits h hh]
        rw [handlersRun, hnone, List.nil_append]
  | transitionAsync =>
      constructor
      · intro honce h hh hasync
        have hcount : (handlersRun hooks isCoroutine .transitionAsync state).count h =
            (onEnter hooks state).count h := honce h
        have hzero : ((onEnter hooks state).filter fun h => !isCoroutine h).count h = 0 :=
          List.count_eq_zero.mpr fun hmem => by simp [hasync] at hmem
        have hpos := List.count_pos_iff.mpr hh
        rw [handlersRun, hzero] at hcount
        omega
      · intro hfits h
        have hall : ((onEnter hooks state).filter fun h => !isCoroutine h) = onEnter hooks state :=
          List.filter_eq_self.mpr fun h hh => by simpa using hfits h hh
        rw [handlersRun, hall]

theorem once_of_entries {s : HookedEngine} {c : EntryCall}
    (hs : ∀ e ∈ s.entries, Once hooks isCoroutine e) :
    (∀ e ∈ (s.call digest registry hooks isCoroutine c).entries, Once hooks isCoroutine e) ↔
      s.Fitting digest registry hooks isCoroutine c := by
  rw [HookedEngine.Fitting, HookedEngine.call]
  cases hresult : (c.perform digest registry hooks isCoroutine s.engine).result with
  | error e => exact iff_of_true hs fun m hm => by cases hm
  | ok m =>
      have hone : Once hooks isCoroutine ⟨c.kind, c.entered m, handlersRun hooks isCoroutine c.kind
          (c.entered m)⟩ ↔ Fits hooks isCoroutine c.kind (c.entered m) := once_iff_fits ..
      rw [← ran_perform hresult] at hone
      simp only [List.mem_append, List.mem_singleton, Except.ok.injEq, forall_eq']
      constructor
      · intro honce
        exact hone.mp (honce _ (.inr rfl))
      · rintro hfits e (he | rfl)
        · exact hs e he
        · exact hone.mpr hfits

end Proofs

/-- Over any calls every successful entry runs its handlers once exactly where
every call fits. -/
theorem entered_once (digest : WalEntry → String) (registry : Registry) (hooks : HookRegistry)
    (isCoroutine : Handler → Bool) (s : AsyncEngine) (calls : List EntryCall) :
    Always (HookedEngine.call digest registry hooks isCoroutine)
        (fun s => ∀ e ∈ s.entries, Once hooks isCoroutine e) ⟨s, []⟩ calls ↔
      Steps (HookedEngine.call digest registry hooks isCoroutine)
        (HookedEngine.Fitting digest registry hooks isCoroutine) ⟨s, []⟩ calls := by
  refine along_iff_steps (fun _ => True) (fun _ _ _ => trivial) (fun s c _ hs => ?_) trivial
    (fun e he => by cases he) calls
  rw [and_true]
  exact once_of_entries hs

/-- A function and a coroutine function that are told of one state. -/
def greeted (state : String) (object : Nat) : HookRegistry :=
  (HookRegistry.register {} state "on_enter" ⟨object, some "greet"⟩ "").1

def quiet : Behaviour := fun _ s => (s, false)

def doubled : List EntryCall := [.createRunAsync "reviews" "A" "a" reviewTime quiet]

def skipped : List EntryCall :=
  [.createRun "reviews" "A" "a" reviewTime quiet, .transitionAsync "a" "review" reviewTime quiet]

def isCoroutineGreeting (h : Handler) : Bool := h.object = 1

/-- A run that is created asynchronously runs a function twice, and a transition
that is made so runs a coroutine function not at all. -/
theorem not_entered_once :
    ¬ Always (HookedEngine.call (fun _ => "") reviews (greeted "draft" 0) isCoroutineGreeting)
        (fun s => ∀ e ∈ s.entries, Once (greeted "draft" 0) isCoroutineGreeting e) ⟨{}, []⟩
        doubled ∧
      ¬ Always (HookedEngine.call (fun _ => "") reviews (greeted "review" 1) isCoroutineGreeting)
        (fun s => ∀ e ∈ s.entries, Once (greeted "review" 1) isCoroutineGreeting e) ⟨{}, []⟩
        skipped := by
  constructor
  · intro h
    have hentries : (doubled.foldl (HookedEngine.call (fun _ => "") reviews (greeted "draft" 0)
        isCoroutineGreeting) ⟨{}, []⟩).entries =
        [⟨.createRunAsync, "draft", [⟨0, some "greet"⟩, ⟨0, some "greet"⟩]⟩] := by decide +kernel
    have honce := h.last ⟨.createRunAsync, "draft", [⟨0, some "greet"⟩, ⟨0, some "greet"⟩]⟩
      (hentries ▸ List.mem_singleton_self _) ⟨0, some "greet"⟩
    revert honce
    decide +kernel
  · intro h
    have hentries : (skipped.foldl (HookedEngine.call (fun _ => "") reviews (greeted "review" 1)
        isCoroutineGreeting) ⟨{}, []⟩).entries =
        [⟨.createRun, "draft", []⟩, ⟨.transitionAsync, "review", []⟩] := by decide +kernel
    have honce := h.last ⟨.transitionAsync, "review", []⟩
      (hentries ▸ List.mem_cons_of_mem _ (List.mem_singleton_self _)) ⟨1, some "greet"⟩
    revert honce
    decide +kernel

end Prodinamik.Runs
