import Mathlib.Data.Int.Order.Basic
import Mathlib.Data.List.Lex
import Prodinamik.Lib.Table
import Prodinamik.Lib.Text

namespace Prodinamik.Plugins

open Lib Lib.Text

/-- An id that names one directory. -/
structure PluginId where
  name : String
  proper : name ≠ "" ∧ name ≠ "." ∧ name ≠ ".." ∧ '/' ∉ name.toList ∧ '\x00' ∉ name.toList
  deriving DecidableEq

def indexFile : PluginId := ⟨"installed.json", by decide +kernel⟩

structure RepositoryPlugin where
  version : String
  checksum : String
  engineVersion : String := ">=1.1.0"
  deriving DecidableEq, Repr

/-- The install_path is a directory of the storage directory. -/
structure InstallRecord where
  id : PluginId
  version : String
  source : String
  installedAt : String
  checksum : String := ""
  installPath : PluginId
  enabled : Bool := false
  deriving DecidableEq

/-- What _download_plugin does and the checksum of what it has left. -/
inductive Download
  | done (computed : String)
  | failed
  | raised (error : String)
  deriving DecidableEq, Repr

/-- What is at a source path: something that is neither file nor directory, a directory
that cannot be listed, or what is copied, with the version that is found in the copy. -/
inductive Source
  | special
  | unlisted (error : String)
  | copied (result : Except String (Option String))

inductive Reply
  | answered (success : Bool) (message : String)
  | returned
  | raised (error : String)
  deriving DecidableEq, Repr

def Reply.Fails : Reply → Prop
  | .answered success _ => success = false
  | .returned => False
  | .raised _ => True

/-- The records in memory, the index file and the directories beside it. -/
structure PluginRepository where
  records : Table InstallRecord.id := Table.empty
  saved : Option (Table InstallRecord.id) := none
  dirs : PluginId → Bool := fun _ => false

namespace PluginRepository

def engineVersion : String := "1.3.0"

/-- The int() of each part. -/
def versionParts (version : List Char) : Except String (List Int) :=
  (version.splitOn '.').mapM fun part =>
    match parseInt part with
    | none => .error "invalid literal for int() with base 10"
    | some n => .ok n

def checkEngineCompatibility (versionSpec : String) : Except String Bool := do
  let engineParts ← versionParts engineVersion.toList
  let spec := strip versionSpec.toList
  if ">=".toList.isPrefixOf spec then
    let required ← versionParts (strip (spec.drop 2))
    return required ≤ engineParts
  else if ">".toList.isPrefixOf spec then
    let required ← versionParts (strip (spec.drop 1))
    return required < engineParts
  else if "==".toList.isPrefixOf spec then
    return engineVersion.toList = strip (spec.drop 2)
  else if "~=".toList.isPrefixOf spec then
    let required ← versionParts (strip (spec.drop 2))
    return engineParts.take required.length = required
  else return true

section

variable (storageDir : String)

def path (id : PluginId) : String := storageDir ++ "/" ++ id.name

/-- os.path.exists of an install path -/
def pathExists (s : PluginRepository) (id : PluginId) : Bool :=
  s.dirs id || (id = indexFile && s.saved.isSome)

def makedirs (s : PluginRepository) (id : PluginId) : Except String PluginRepository :=
  if id = indexFile ∧ s.saved.isSome then
    .error ("[Errno 17] File exists: '" ++ path storageDir id ++ "'")
  else .ok { s with dirs := Function.update s.dirs id true }

/-- shutil.rmtree with ignore_errors does nothing to a file. -/
def rmtree (s : PluginRepository) (id : PluginId) : PluginRepository :=
  { s with dirs := Function.update s.dirs id false }

def saveLocalIndex (s : PluginRepository) : Except String PluginRepository :=
  if s.dirs indexFile then
    .error ("[Errno 21] Is a directory: '" ++ path storageDir indexFile ++ "'")
  else .ok { s with saved := some s.records }

def loadLocalIndex (s : PluginRepository) : Reply × PluginRepository :=
  if s.dirs indexFile then
    (.raised ("[Errno 21] Is a directory: '" ++ path storageDir indexFile ++ "'"), s)
  else (.returned, { s with records := s.saved.getD Table.empty })

/-- The end of both kinds of installation. -/
def record (s : PluginRepository) (r : InstallRecord) (failure success : String) :
    Reply × PluginRepository :=
  let s := { s with records := s.records.put r }
  match s.saveLocalIndex storageDir with
  | .error e => (.answered false (failure ++ e), s.rmtree r.id)
  | .ok s => (.answered true success, s)

def install (remote : PluginId → Option RepositoryPlugin) (s : PluginRepository) (id : PluginId)
    (download : Download) (now : String) : Reply × PluginRepository :=
  if (s.records.get id).isSome then
    (.answered false ("Plugin '" ++ id.name ++ "' is already installed"), s)
  else
    match remote id with
    | none => (.answered false ("Plugin '" ++ id.name ++ "' not found in repository"), s)
    | some plugin =>
      match checkEngineCompatibility plugin.engineVersion with
      | .error e => (.raised e, s)
      | .ok false =>
          (.answered false ("Plugin '" ++ id.name ++ "' requires engine " ++ plugin.engineVersion ++
            ", but current engine is not compatible"), s)
      | .ok true =>
        match s.makedirs storageDir id with
        | .error e => (.answered false ("Installation failed: " ++ e), s.rmtree id)
        | .ok s =>
          match download with
          | .failed => (.answered false ("Failed to download plugin '" ++ id.name ++ "'"), s)
          | .raised e => (.answered false ("Installation failed: " ++ e), s.rmtree id)
          | .done computed =>
              if plugin.checksum ≠ "" ∧ computed ≠ plugin.checksum then
                (.answered false ("Checksum mismatch for '" ++ id.name ++ "': expected " ++
                  plugin.checksum ++ ", got " ++ computed), s.rmtree id)
              else
                s.record storageDir
                  { id := id
                    version := plugin.version
                    source := "repository"
                    installedAt := now
                    checksum := plugin.checksum
                    installPath := id }
                  "Installation failed: "
                  ("Plugin '" ++ id.name ++ "' v" ++ plugin.version ++ " installed")

def uninstall (s : PluginRepository) (id : PluginId) : Reply × PluginRepository :=
  match s.records.get id with
  | none => (.answered false ("Plugin '" ++ id.name ++ "' is not installed"), s)
  | some r =>
      let s := s.rmtree r.installPath
      let s := { s with records := s.records.erase id }
      match s.saveLocalIndex storageDir with
      | .error e => (.raised e, s)
      | .ok s => (.answered true ("Plugin '" ++ id.name ++ "' uninstalled"), s)

/-- The id is the one that is given or the stem of the source path. -/
def installLocal (s : PluginRepository) (sourcePath : String) (source : Option Source)
    (id : PluginId) (now : String) : Reply × PluginRepository :=
  let register (s : PluginRepository) (version : String) : Reply × PluginRepository :=
    s.record storageDir
      { id := id
        version := if version = "" then "0.0.0" else version
        source := "local"
        installedAt := now
        installPath := id }
      "Local install failed: "
      ("Plugin '" ++ id.name ++ "' installed from " ++ sourcePath)
  match source with
  | none => (.answered false ("Source not found: " ++ sourcePath), s)
  | some source =>
    if s.pathExists id then
      (.answered false ("Plugin '" ++ id.name ++ "' already installed at " ++ path storageDir id), s)
    else
      match source with
      | .special => register s ""
      | .unlisted e => (.answered false ("Local install failed: " ++ e), s)
      | .copied result =>
          let s := { s with dirs := Function.update s.dirs id true }
          match result with
          | .error e => (.answered false ("Local install failed: " ++ e), s.rmtree id)
          | .ok version => register s (version.getD "")

end

end PluginRepository

end Prodinamik.Plugins
