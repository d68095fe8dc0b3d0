import Prodinamik.Runs.Store

namespace Prodinamik.Runs

open Machine Lib.Text

structure Registry where
  profiles : List ProductProfile
  nodup : (profiles.map ProductProfile.name).Nodup

namespace Registry

def profile (r : Registry) (name : String) : Option ProductProfile :=
  r.profiles.find? fun p => p.name = name

end Registry

/-- The times that a transition reads: those of the record and of the WAL file,
and the time of the entry into the state in microseconds. -/
structure Moment where
  now : DateTime
  walTime : DateTime
  entered : Int := 0

inductive Resumed
  | notPaused (state : String)
  | answersRecorded (answers : List String)
  | transitionFailed (message : String)
  | awaitingInput (state : String) (questions : List (AskDirective ⊕ ConditionalAsk))
  | transitioned (fromState toState : String)
  deriving DecidableEq, Repr

/-- Where the next state is a pause state too its questions are asked. -/
def resumedAt (sm : StateMachine) (fromState nextState : String) (m : RunMeta) : Resumed :=
  let questions :=
    sm.hitlQuestions nextState { currentState := nextState, iterationCount := m.iterationCount }
  if sm.isPauseState nextState ∧ questions ≠ [] then .awaitingInput nextState questions
  else .transitioned fromState nextState

def runNotFound (slug : String) : String := "Run '" ++ slug ++ "' not found"

def noStateMachine (slug : String) : String :=
  "Profile for run '" ++ slug ++ "' not found or has no state machine"

variable (digest : WalEntry → String) (registry : Registry)

namespace ProdinamikEngine

/-- get_run tries every profile, and each of them reads the same metadata. -/
def getRun (d : Disk) (slug : String) : Except String (Option RunMeta) :=
  if registry.profiles = [] then .ok none else d.getRun slug

/-- The keys that only the snapshot has and the WAL entry of recorded answers
are left out. -/
def resume (d : Disk) (slug : String) (answers : List String) (t : Moment) :
    Except String Resumed × Disk :=
  match getRun registry d slug with
  | .error e => (.error e, d)
  | .ok none => (.error (runNotFound slug), d)
  | .ok (some m) =>
    match (registry.profile m.profile).bind ProductProfile.stateMachine with
    | none => (.error (noStateMachine slug), d)
    | some sm =>
      if sm.isPauseState m.state then
        let next := (sm.evaluateResumeTransition m.state answers).getD ""
        if next = "" then
          (.ok (.answersRecorded answers),
            d.performAll (updateSnapshot d slug { updatedAt := t.now.isoformat }))
        else
          match updateState digest d slug next (registry.profile m.profile) [.humanApproved true]
              t.now t.walTime with
          | .error e => (.ok (.transitionFailed e), d)
          | .ok (writes, m') => (.ok (resumedAt sm m.state next m'), d.performAll writes)
      else (.ok (.notPaused m.state), d)

end ProdinamikEngine

/-- The disk, the state transitions that were recorded as events of a run and
the times at which states were entered. -/
structure AsyncEngine where
  disk : Disk := {}
  events : String → List (String × String) := fun _ => []
  entered : String → String → Option Int := fun _ _ => none

namespace AsyncEngine

def trackEntry (s : AsyncEngine) (slug state : String) (time : Int) : AsyncEngine :=
  { s with
    entered :=
      Function.update s.entered slug (Function.update (s.entered slug) state (some time)) }

/-- The event of a transition and the time of the entry. -/
def record (s : AsyncEngine) (slug fromState toState : String) (t : Moment) : AsyncEngine :=
  { s with
    events := Function.update s.events slug (s.events slug ++ [(fromState, toState)]) }.trackEntry
      slug toState t.entered

def createRun (s : AsyncEngine) (profileName title slug : String) (t : Moment) :
    Except String RunMeta × AsyncEngine :=
  match registry.profile profileName with
  | none => (.error ("Profile '" ++ profileName ++ "' not found"), s)
  | some p =>
    match Runs.createRun digest s.disk title p slug t.now t.walTime with
    | .error e => (.error e, s)
    | .ok (writes, m) =>
        (.ok m, { s with disk := s.disk.performAll writes }.record slug "" m.state t)

def doTransition (s : AsyncEngine) (slug toState : String) (overrides : List Override)
    (t : Moment) : Except String RunMeta × AsyncEngine :=
  match s.disk.getRun slug with
  | .error e => (.error e, s)
  | .ok none => (.error (runNotFound slug), s)
  | .ok (some m) =>
    match registry.profile m.profile with
    | none => (.error ("Profile '" ++ m.profile ++ "' not found"), s)
    | some p =>
      match updateState digest s.disk slug toState (some p) overrides t.now t.walTime with
      | .error e => (.error e, s)
      | .ok (writes, m') =>
          (.ok m', { s with disk := s.disk.performAll writes }.record slug m.state toState t)

inductive HitlAnswer
  | failed (error : String)
  | moved (state : String)
  | guarded (state : String)
  | awaiting (state : String) (questions : List (AskDirective ⊕ ConditionalAsk)) (timeout : Int)
  deriving DecidableEq, Repr

def maxHitlLoop : Nat := 5

/-- hitlLoopCount is the counter of the snapshot. -/
def transitionWithHitl (s : AsyncEngine) (slug toState : String) (hitlLoopCount : Nat)
    (t : Moment) : HitlAnswer × AsyncEngine :=
  match s.doTransition digest registry slug toState [] t with
  | (.error e, s') => (.failed e, s')
  | (.ok m, s') =>
    match (registry.profile m.profile).bind ProductProfile.stateMachine with
    | none => (.moved m.state, s')
    | some sm =>
        let questions := sm.hitlQuestions m.state
          { currentState := m.state, iterationCount := m.iterationCount }
        if sm.isPauseState m.state then
          if maxHitlLoop ≤ hitlLoopCount then (.guarded m.state, s')
          else if questions ≠ [] then
            let asked := ((sm.config.state m.state).bind StateDefinition.hitl).elim []
              HITLConfig.askUser
            (.awaiting m.state questions ((asked.map AskDirective.timeoutSeconds).foldl max 300), s')
          else (.moved m.state, s')
        else (.moved m.state, s')

/-- Of the two flags those that the transition's condition names. -/
def namedOverrides (sm : StateMachine) (fromState toState : String) : List Override :=
  match sm.config.transitions.find? fun t => t.fromState = fromState ∧ t.toState = toState with
  | none => []
  | some t =>
      let condition := (t.condition.getD "").toList
      (if contains "human_approved".toList condition then [.humanApproved true] else []) ++
        if contains "changes_requested".toList condition then [.changesRequested true] else []

/-- A change of the snapshot for the counter and for the answers. -/
def touch (s : AsyncEngine) (slug : String) (t : Moment) : AsyncEngine :=
  { s with
    disk := s.disk.performAll (updateSnapshot s.disk slug { updatedAt := t.now.isoformat }) }

def resumeRun (s : AsyncEngine) (slug : String) (answers : List String) (t : Moment) :
    Except String Resumed × AsyncEngine :=
  match s.disk.getRun slug with
  | .error e => (.error e, s)
  | .ok none => (.error (runNotFound slug), s)
  | .ok (some m) =>
    match (registry.profile m.profile).bind ProductProfile.stateMachine with
    | none => (.error (noStateMachine slug), s)
    | some sm =>
      if sm.isPauseState m.state then
        let next := (sm.evaluateResumeTransition m.state answers).getD ""
        let s := s.touch slug t
        if next = "" then (.ok (.answersRecorded answers), s.touch slug t)
        else
          match s.doTransition digest registry slug next (namedOverrides sm m.state next) t with
          | (.error e, s') => (.ok (.transitionFailed e), s')
          | (.ok m', s') => (.ok (resumedAt sm m.state next m'), s')
      else (.ok (.notPaused m.state), s)

/-- The first of the next states that a transition to is accepted. -/
def proceed (s : AsyncEngine) (m : RunMeta) (t : Moment) : List String → AsyncEngine
  | [] => s
  | next :: rest =>
      if next = m.state then proceed s m t rest
      else
        match s.doTransition digest registry m.slug next [] t with
        | (.ok _, s') => s'
        | (.error _, _) => proceed s m t rest

def abort (s : AsyncEngine) (m : RunMeta) (t : Moment) : AsyncEngine :=
  match s.doTransition digest registry m.slug "cancelled" [.projectAbandoned true] t with
  | (.ok _, s') => s'
  | (.error _, _) => (s.doTransition digest registry m.slug "archived" [] t).2

/-- What is done for a run that is too long in a state. -/
def onTimeout (s : AsyncEngine) (m : RunMeta) (sm : StateMachine) (state : StateDefinition)
    (t : Moment) : AsyncEngine :=
  let policy := (state.hitl.map HITLConfig.onTimeout).getD "proceed"
  if state.stateType = .pause then
    if policy = "proceed" then s.proceed digest registry m t (sm.nextStates m.state)
    else if policy = "abort" then s.abort digest registry m t
    else if "default:".toList.isPrefixOf policy.toList then
      (s.resumeRun digest registry m.slug [String.ofList (policy.toList.drop 8)] t).2
    else s
  else
    match state.temporalOnTimeout with
    | none => s
    | some target =>
        if target = "" then s else (s.doTransition digest registry m.slug target [] t).2

variable (fromisoformat : String → Option Int)

/-- One turn of the loop of _check_timeouts; times are in microseconds. -/
def checkTimeout (now : Int) (s : AsyncEngine) (m : RunMeta) (t : Moment) : AsyncEngine :=
  match (registry.profile m.profile).bind ProductProfile.stateMachine with
  | none => s
  | some sm =>
    match sm.config.state m.state with
    | none => s
    | some state =>
      let limit := state.timeoutSeconds.getD 0
      if m.status ≠ "active" ∨ limit = 0 then s
      else
        match s.entered m.slug m.state <|> fromisoformat m.updatedAt with
        | none => s
        | some time =>
            let s := s.trackEntry m.slug m.state time
            if limit * 1000000 < now - time then s.onTimeout digest registry m sm state t else s

/-- The metadata of the active runs in the order of their directories. -/
def readRuns (d : Disk) : List String → Except String (List RunMeta)
  | [] => .ok []
  | slug :: slugs =>
    match (d.active slug).map (Disk.readMeta slug) with
    | some (.error e) => .error e
    | some (.ok (some m)) => (readRuns d slugs).map fun ms => m :: ms
    | _ => readRuns d slugs

def Later (m m' : RunMeta) : Prop := m'.updatedAt ≤ m.updatedAt

instance : DecidableRel Later := fun m m' => inferInstanceAs (Decidable (m'.updatedAt ≤ m.updatedAt))

/-- list_runs; the directories are listed in some order. -/
def listRuns (d : Disk) (dirs : List String) : Except String (List RunMeta) :=
  (readRuns d dirs).map fun ms => ms.insertionSort Later

def checkTimeouts (s : AsyncEngine) (dirs : List String) (now : Int) (times : String → Moment) :
    AsyncEngine :=
  match listRuns s.disk dirs with
  | .error _ => s
  | .ok metas =>
      metas.foldl (fun s m => s.checkTimeout digest registry fromisoformat now m (times m.slug)) s

end AsyncEngine

end Prodinamik.Runs
