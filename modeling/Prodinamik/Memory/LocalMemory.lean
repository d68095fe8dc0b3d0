import Mathlib.Data.List.Sort
import Mathlib.Data.Prod.Lex
import Mathlib.Data.String.Basic
import Prodinamik.Lib.Run
import Prodinamik.Lib.Surrogates
import Prodinamik.Lib.Table
import Prodinamik.Lib.Text

namespace Prodinamik.Memory

open Lib Lib.Json Lib.Run Lib.Text

structure MemoryRow where
  nodeId : String
  ns : String
  key : String
  value : List Char
  tags : List Char
  createdAt : String
  updatedAt : String
  accessCount : Nat := 0
  deriving DecidableEq

/-- The unique key of the table. -/
def MemoryRow.place (r : MemoryRow) : String × String × String := (r.nodeId, r.ns, r.key)

structure MemoryEntry (F : Type) where
  key : String
  value : Value F
  ns : String
  tags : List (List Char)
  createdAt : String
  updatedAt : String
  accessCount : Nat

/-- The memory of a node, with the table of its database, which other nodes may
use, too. With an interval of zero no save is successful. -/
structure LocalMemory where
  nodeId : String
  rows : Table MemoryRow.place
  maxEntries : Int := 1000
  vacuumInterval : Nat := 100
  writeCount : Nat := 0
  interval : 0 < vacuumInterval

variable {fl : Floats}

/-- The call of save, and the time it takes place. -/
structure Save (F : Type) where
  key : String
  value : Value F
  ns : String := "default"
  tags : List (List Char) := []
  now : String

namespace LocalMemory

/-- A string is kept as it is, and all else as its JSON text. -/
def valueText : Value fl.Num → List Char
  | .str s => s.toList
  | v => dumps fl v

/-- The text is read as JSON where it can be. -/
def readValue (text : List Char) : Value fl.Num := (loadsMended fl text).getD (.str (String.ofList text))

def tagsText (tags : List (List Char)) : List Char := [','].intercalate tags

def readTags (text : List Char) : List (List Char) :=
  if text = [] then [] else ((text.splitOn ',').map strip).filter fun t => t ≠ []

def place (m : LocalMemory) (ns key : String) : String × String × String := (m.nodeId, ns, key)

/-- The upsert of save; a row that is there keeps its time of creation. -/
def written (m : LocalMemory) (s : Save fl.Num) : LocalMemory :=
  let row : MemoryRow :=
    match m.rows.get (m.place s.ns s.key) with
    | some old => { old with
        value := valueText s.value
        tags := tagsText s.tags
        updatedAt := s.now
        accessCount := old.accessCount + 1 }
    | none => ⟨m.nodeId, s.ns, s.key, valueText s.value, tagsText s.tags, s.now, s.now, 0⟩
  { m with
    rows := m.rows.put row
    writeCount := m.writeCount + 1 }

def inNamespace (m : LocalMemory) (ns : String) : List MemoryRow :=
  m.rows.rows.filter fun r => r.nodeId = m.nodeId ∧ r.ns = ns

/-- ORDER BY access_count ASC, updated_at ASC -/
def RemovedBefore (a b : MemoryRow) : Prop :=
  toLex (a.accessCount, a.updatedAt) ≤ toLex (b.accessCount, b.updatedAt)

instance : DecidableRel RemovedBefore := fun a b =>
  inferInstanceAs (Decidable (toLex (a.accessCount, a.updatedAt) ≤ toLex (b.accessCount, b.updatedAt)))

def excess (m : LocalMemory) (ns : String) : List MemoryRow :=
  ((m.inNamespace ns).insertionSort RemovedBefore).take
    ((m.inNamespace ns).length - m.maxEntries).toNat

def maintenance (m : LocalMemory) : LocalMemory :=
  { m with
    rows := {
      rows := m.rows.rows.filter fun r => ¬ (r.nodeId = m.nodeId ∧ r ∈ m.excess r.ns)
      nodup := m.rows.nodup.sublist (List.filter_sublist.map _) } }

def save (m : LocalMemory) (s : Save fl.Num) : LocalMemory :=
  let saved := m.written s
  if saved.writeCount % m.vacuumInterval = 0 then saved.maintenance else saved

/-- The value that load returns, which is null where there is none, and the
memory with its count of accesses. -/
def load (m : LocalMemory) (key : String) (ns : String := "default") : Value fl.Num × LocalMemory :=
  match m.rows.get (m.place ns key) with
  | none => (.null, m)
  | some row =>
      (readValue row.value,
        { m with rows := m.rows.put { row with accessCount := row.accessCount + 1 } })

/-- key LIKE pattern -/
def like : List Char → List Char → Bool
  | [], s => s.isEmpty
  | c :: p, s =>
      if c = '%' then s.tails.any fun t => like p t
      else
        match s with
        | [] => false
        | d :: s => (c = '_' || c.toLower = d.toLower) && like p s

def wildcard (c : Char) : Char := if c = '*' then '%' else if c = '?' then '_' else c

def likePattern (keyPattern : String) : List Char :=
  let pattern := keyPattern.toList.map wildcard
  if '%' ∈ pattern then pattern else '%' :: (pattern ++ ['%'])

def matching (m : LocalMemory) (keyPattern ns : String) : List MemoryRow :=
  (m.inNamespace ns).filter fun r => like (likePattern keyPattern) r.key.toList

def entry (r : MemoryRow) : MemoryEntry fl.Num :=
  ⟨r.key, readValue r.value, r.ns, readTags r.tags, r.createdAt, r.updatedAt, r.accessCount⟩

/-- A negative limit is none. -/
def limited (limit : Int) (rows : List MemoryRow) : List MemoryRow :=
  if limit < 0 then rows else rows.take limit.toNat

def query (m : LocalMemory) (keyPattern : String) (ns : String := "default") (limit : Int := 20) :
    List (MemoryEntry fl.Num) :=
  (limited limit ((m.matching keyPattern ns).insertionSort fun a b => b.updatedAt ≤ a.updatedAt)).map
    entry

end LocalMemory

end Prodinamik.Memory
