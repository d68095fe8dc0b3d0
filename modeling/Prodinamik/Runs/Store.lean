import Mathlib.Data.List.AList
import Mathlib.Data.List.Sort
import Prodinamik.Machine.StateMachine
import Prodinamik.Runs.Clock
import Prodinamik.Runs.Meta

namespace Prodinamik.Runs

open Machine Lib.Text

/-- The keys of a snapshot entry; none is a missing key. -/
structure SnapEntry where
  state : Option String := none
  profile : Option String := none
  status : Option String := none
  updatedAt : Option String := none
  version : Option Int := none
  deriving DecidableEq, Repr

/-- dict.update -/
def SnapEntry.update (e data : SnapEntry) : SnapEntry where
  state := data.state <|> e.state
  profile := data.profile <|> e.profile
  status := data.status <|> e.status
  updatedAt := data.updatedAt <|> e.updatedAt
  version := data.version <|> e.version

abbrev Snapshot := AList fun _ : String => SnapEntry

def Snapshot.update (s : Snapshot) (slug : String) (data : SnapEntry) : Snapshot :=
  s.insert slug (((s.lookup slug).getD {}).update data)

inductive WalEntry
  | create (slug profile state timestamp : String)
  | transition (slug fromState toState : String) (version : Int) (timestamp : String)
  | archive (slug timestamp : String)
  deriving DecidableEq, Repr

namespace WalEntry

def slug : WalEntry → String
  | .create slug _ _ _ => slug
  | .transition slug _ _ _ _ => slug
  | .archive slug _ => slug

/-- The fields that recover takes from an entry. -/
def data : WalEntry → SnapEntry
  | .create _ profile state timestamp =>
      { state := state, profile := profile, status := "active", updatedAt := timestamp }
  | .transition _ _ toState _ timestamp => { state := toState, updatedAt := timestamp }
  | .archive _ timestamp => { status := "archived", updatedAt := timestamp }

end WalEntry

/-- A WAL file that is not JSON is damaged. -/
inductive WalFile
  | damaged
  | holds (entry : WalEntry) (checksum : String)
  deriving DecidableEq, Repr

/-- A run directory; its content-object.md may be missing. -/
structure RunDir where
  content : Option String := none
  deriving DecidableEq, Repr

structure Disk where
  active : String → Option RunDir := fun _ => none
  archive : String → Option RunDir := fun _ => none
  snapshot : Option Snapshot := none
  tmp : Option Snapshot := none
  wal : AList (fun _ : String => WalFile) := ∅

/-- One write, rename, removal or move of the file system. -/
inductive Write
  | makeDir (slug : String)
  | writeMeta (slug content : String)
  | appendWal (name : String) (file : WalFile)
  | writeTmp (snapshot : Snapshot)
  | renameTmp
  | removeArchive (slug : String)
  | moveToArchive (slug : String)

namespace Disk

def perform (d : Disk) : Write → Disk
  | .makeDir slug =>
      { d with active := Function.update d.active slug (some ((d.active slug).getD {})) }
  | .writeMeta slug content =>
      { d with active :=
          Function.update d.active slug ((d.active slug).map fun _ => ⟨some content⟩) }
  | .appendWal name file => { d with wal := d.wal.insert name file }
  | .writeTmp snapshot => { d with tmp := some snapshot }
  | .renameTmp => { d with snapshot := d.tmp, tmp := none }
  | .removeArchive slug => { d with archive := Function.update d.archive slug none }
  | .moveToArchive slug =>
      { d with
        active := Function.update d.active slug none
        archive := Function.update d.archive slug (d.active slug) }

def performAll (d : Disk) (writes : List Write) : Disk := writes.foldl perform d

/-- A file that is missing or damaged counts as an empty dict. -/
def loadSnapshot (d : Disk) : Snapshot := d.snapshot.getD ∅

/-- _read_meta of a run directory. -/
def readMeta (slug : String) (dir : RunDir) : Except String (Option RunMeta) :=
  match dir.content with
  | none => .ok none
  | some content =>
    match RunMeta.read slug content with
    | none => .error "invalid literal for int() with base 10"
    | some m => .ok (some m)

def getRun (d : Disk) (slug : String) : Except String (Option RunMeta) :=
  match d.active slug with
  | some dir => readMeta slug dir
  | none =>
    match d.archive slug with
    | some dir => readMeta slug dir
    | none => .ok none

end Disk

section Operations

variable (digest : WalEntry → String)

def appendWal (entry : WalEntry) (walTime : DateTime) : Write :=
  .appendWal walTime.walName (.holds entry (digest entry))

def updateSnapshot (d : Disk) (slug : String) (data : SnapEntry) : List Write :=
  [.writeTmp (d.loadSnapshot.update slug data), .renameTmp]

/-- create_run with the slug that was given or made from the title: the writes
in their order and the metadata of the run that is returned. -/
def createRun (d : Disk) (title : String) (profile : ProductProfile) (slug : String)
    (now walTime : DateTime) : Except String (List Write × RunMeta) :=
  match profile.stateMachine with
  | none => .error ("Profile '" ++ profile.name ++ "' has no state machine")
  | some sm =>
    if ((d.active slug).bind RunDir.content).isSome then
      .error ("Run '" ++ slug ++ "' already exists")
    else
      match sm.config.initialStates with
      | [] => .error "list index out of range"
      | initial :: _ =>
          let m : RunMeta :=
            { slug := slug
              profile := profile.name
              title := title
              createdAt := now.isoformat
              updatedAt := now.isoformat
              status := "active"
              state := initial.name }
          .ok ([.makeDir slug, .writeMeta slug m.write,
              appendWal digest (.create slug profile.name initial.name now.isoformat) walTime] ++
            updateSnapshot d slug
              { state := initial.name
                profile := profile.name
                status := "active"
                updatedAt := now.isoformat }, m)

/-- The metadata that update_state counts and validates with. -/
def RunMeta.leaving (m : RunMeta) : RunMeta :=
  if m.state = "iteration" then { m with iterationCount := m.iterationCount + 1 } else m

def checkTransition (profile : Option ProductProfile) (m : RunMeta) (toState : String)
    (overrides : List Override) : Except String Unit :=
  match profile.bind ProductProfile.stateMachine with
  | none => .ok ()
  | some sm =>
      let rt : RuntimeState :=
        { currentState := m.state, version := m.version, iterationCount := m.iterationCount }
      match sm.canTransition m.state toState (overrides.foldl RuntimeState.override rt) with
      | .error reason =>
          .error ("Transition " ++ m.state ++ " → " ++ toState ++ " rejected: " ++ reason)
      | .ok _ => .ok ()

def updateState (d : Disk) (slug toState : String) (profile : Option ProductProfile)
    (overrides : List Override) (now walTime : DateTime) : Except String (List Write × RunMeta) :=
  match d.active slug with
  | none => .error ("Run '" ++ slug ++ "' not found")
  | some dir =>
    match Disk.readMeta slug dir with
    | .error e => .error e
    | .ok none => .error ("Run '" ++ slug ++ "' has no metadata")
    | .ok (some stored) =>
      let m := stored.leaving
      match checkTransition profile m toState overrides with
      | .error e => .error e
      | .ok () =>
          let version := m.version + 1
          let m' : RunMeta :=
            { m with state := toState, updatedAt := now.isoformat, version := version }
          .ok ([appendWal digest (.transition slug m.state toState version now.isoformat) walTime] ++
            updateSnapshot d slug
              { state := toState
                status := "active"
                updatedAt := now.isoformat
                version := version } ++
            [.writeMeta slug m'.write], m')

def archiveRun (d : Disk) (slug : String) (now entryTime walTime : DateTime) :
    Except String (List Write) :=
  if (d.active slug).isNone then .error ("Run '" ++ slug ++ "' not found")
  else
    .ok ((if (d.archive slug).isSome then [.removeArchive slug] else []) ++
      [.moveToArchive slug] ++
      updateSnapshot d slug { status := "archived", updatedAt := now.isoformat } ++
      [appendWal digest (.archive slug entryTime.isoformat) walTime])

/-- A slug that a run is created with is never empty. -/
inductive Op
  | create (title : String) (profile : ProductProfile) (slug : String) (named : slug ≠ "")
      (now walTime : DateTime)
  | update (slug toState : String) (profile : Option ProductProfile) (overrides : List Override)
      (now walTime : DateTime)
  | archive (slug : String) (now entryTime walTime : DateTime)

namespace Op

def slug : Op → String
  | .create _ _ slug _ _ _ => slug
  | .update slug _ _ _ _ _ => slug
  | .archive slug _ _ _ => slug

def walTime : Op → DateTime
  | .create _ _ _ _ _ walTime => walTime
  | .update _ _ _ _ _ walTime => walTime
  | .archive _ _ _ walTime => walTime

/-- The writes of an operation; an operation that raises makes none. -/
def writes (d : Disk) : Op → List Write
  | .create title profile slug _ now walTime =>
      ((createRun digest d title profile slug now walTime).toOption.map Prod.fst).getD []
  | .update slug toState profile overrides now walTime =>
      ((updateState digest d slug toState profile overrides now walTime).toOption.map
        Prod.fst).getD []
  | .archive slug now entryTime walTime =>
      (archiveRun digest d slug now entryTime walTime).toOption.getD []

end Op

def runOps (d : Disk) (ops : List Op) : Disk :=
  ops.foldl (fun d op => d.performAll (op.writes digest d)) d

/-- The disk a crash leaves when the last operation was cut after k writes. -/
def crash (ops : List Op) (op : Op) (k : Nat) : Disk :=
  (runOps digest {} ops).performAll ((op.writes digest (runOps digest {} ops)).take k)

end Operations

end Prodinamik.Runs
