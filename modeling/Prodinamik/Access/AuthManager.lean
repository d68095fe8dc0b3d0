import Mathlib.Data.List.Sort
import Mathlib.Data.String.Basic
import Prodinamik.Lib.Table

namespace Prodinamik.Access

open Lib

def roleAdmin : String := "admin"

def roleUser : String := "user"

def roleReadonly : String := "readonly"

def validRoles : List String := [roleAdmin, roleUser, roleReadonly]

/-- Times are microseconds since the epoch, in UTC. -/
structure APIKey where
  keyId : String
  keyHash : String
  name : String
  role : String := roleUser
  createdAt : Int
  expiresAt : Option Int := none
  lastUsedAt : Option Int := none
  enabled : Bool := true
  deriving DecidableEq, Repr

structure AuthResult where
  valid : Bool := false
  role : String := ""
  name : String := ""
  keyId : String := ""
  error : String := ""
  deriving DecidableEq, Repr

/-- The keys directory, as a path from the root, and the directories there are. -/
structure Directories where
  keysDir : List String
  isDir : List String → Bool

namespace Directories

/-- The directory that a path leads to from another one. -/
def walk (d : Directories) (dir : List String) : List String → Option (List String)
  | [] => some dir
  | part :: parts =>
      if part = "" ∨ part = "." then d.walk dir parts
      else if part = ".." then d.walk dir.dropLast parts
      else if d.isDir (dir ++ [part]) then d.walk (dir ++ [part]) parts
      else none

def parts (text : List Char) : List String := (text.splitOn '/').map String.ofList

/-- keys_dir / f"{key_id}.json"; none if such a file cannot be opened. -/
def keyPath (d : Directories) (keyId : String) : Option (List String) :=
  let text := keyId.toList ++ ".json".toList
  if Char.ofNat 0 ∈ text then none
  else
    match d.walk (if text.head? = some '/' then [] else d.keysDir) (parts text).dropLast with
    | none => none
    | some dir =>
        let path := dir ++ [(parts text).getLastD ""]
        if d.isDir path then none else some path

end Directories

structure KeyFile where
  path : List String
  key : APIKey
  deriving DecidableEq, Repr

def KeyFile.name (f : KeyFile) : String := f.path.getLastD ""

def KeyFile.Precedes (f g : KeyFile) : Prop := f.name ≤ g.name

instance : DecidableRel KeyFile.Precedes := fun f g => inferInstanceAs (Decidable (f.name ≤ g.name))

/-- A call of create_key with what it draws at random and the time it reads. -/
structure Creation where
  name : String
  role : String := roleUser
  expiresInDays : Option Int := none
  suffix : String
  token : String
  now : Int
  deriving DecidableEq, Repr

inductive CreateError
  | invalidRole (role : String)
  | overflow
  | unwritable
  deriving DecidableEq, Repr

namespace Creation

def daysToMicroseconds (days : Int) : Int := days * 86400 * 1000000

def minTime : Int := -62135596800000000

def maxTime : Int := 253402300799999999

/-- No days and zero days are the same to the test for a number. -/
def expiresAt (c : Creation) : Except CreateError (Option Int) :=
  match c.expiresInDays with
  | none => .ok none
  | some days =>
      if days = 0 then .ok none
      else if minTime ≤ c.now + daysToMicroseconds days ∧
          c.now + daysToMicroseconds days ≤ maxTime then
        .ok (some (c.now + daysToMicroseconds days))
      else .error .overflow

def rawPrefix : String := "pdmk_"

def rawKey (c : Creation) : String := rawPrefix ++ c.token

variable (lower : String → String)

def nameSlug (name : String) : String :=
  .ofList (((lower name).toList.map fun c => if c = ' ' ∨ c = '_' then '-' else c).take 20)

def keyId (c : Creation) : String := nameSlug lower c.name ++ "-" ++ c.suffix

end Creation

structure AuthManager where
  files : Table KeyFile.path := .empty
  cache : Table APIKey.keyId := .empty

namespace AuthManager

variable (d : Directories) (lower hash : String → String)

/-- _save_key and the record in the cache; none is an OSError. -/
def save (m : AuthManager) (key : APIKey) : Option AuthManager :=
  (d.keyPath key.keyId).map fun path => ⟨m.files.put ⟨path, key⟩, m.cache.put key⟩

def createKey (m : AuthManager) (c : Creation) : Except CreateError (AuthManager × String × String) :=
  if c.role ∉ validRoles then .error (.invalidRole c.role)
  else
    match c.expiresAt with
    | .error e => .error e
    | .ok expiresAt =>
      match m.save d
        { keyId := c.keyId lower, keyHash := hash c.rawKey, name := c.name, role := c.role,
          createdAt := c.now, expiresAt := expiresAt } with
      | none => .error .unwritable
      | some m' => .ok (m', c.keyId lower, c.rawKey)

def Expired (expiresAt : Option Int) (now : Int) : Prop := ∃ time ∈ expiresAt, time < now

instance (expiresAt : Option Int) (now : Int) : Decidable (Expired expiresAt now) :=
  inferInstanceAs (Decidable (∃ time ∈ expiresAt, time < now))

/-- No result is an OSError of the file that is written last. -/
def validateKey (m : AuthManager) (rawKey : String) (now : Int) : AuthManager × Option AuthResult :=
  if Creation.rawPrefix.toList.isPrefixOf rawKey.toList then
    match m.cache.rows.find? fun cached => cached.keyHash = hash rawKey with
    | none => (m, some { error := "Key not found" })
    | some cached =>
      if Expired cached.expiresAt now then (m, some { error := "Key expired" })
      else if cached.enabled then
        let used := { cached with lastUsedAt := some now }
        match m.save d used with
        | none => ({ m with cache := m.cache.put used }, none)
        | some m' =>
            (m', some { valid := true, role := used.role, name := used.name, keyId := used.keyId })
      else (m, some { error := "Key disabled" })
  else (m, some { error := "Invalid key format" })

def revokeKey (m : AuthManager) (keyId : String) : AuthManager × Option Bool :=
  match m.cache.get keyId with
  | none => (m, some false)
  | some key =>
      let disabled := { key with enabled := false }
      match m.save d disabled with
      | none => ({ m with cache := m.cache.put disabled }, none)
      | some m' => (m', some true)

def keyFiles (m : AuthManager) : List KeyFile :=
  (m.files.rows.filter fun f => f.path.dropLast = d.keysDir).insertionSort KeyFile.Precedes

def restart (m : AuthManager) : AuthManager where
  files := m.files
  cache := (m.keyFiles d).foldl (fun cache f => cache.put f.key) .empty

end AuthManager

end Prodinamik.Access
