import Prodinamik.Lib.StableSort
import Prodinamik.Lib.Table

namespace Prodinamik.Memory

open Lib

variable {V T : Type}

structure CRDTEntry (V T : Type) where
  key : String
  value : V
  ns : String := "default"
  timestamp : T
  nodeId : String
  deleted : Bool := false
  deriving DecidableEq, Repr

namespace CRDTEntry

/-- Where an entry is stored. -/
def place (e : CRDTEntry V T) : String × String := (e.ns, e.key)

variable [LinearOrder T]

def mergeWith (e other : CRDTEntry V T) : CRDTEntry V T :=
  if e.timestamp < other.timestamp then other else e

theorem place_mergeWith {e other : CRDTEntry V T} (h : e.place = other.place) :
    (e.mergeWith other).place = other.place := by
  rw [mergeWith]
  split
  case isTrue => rfl
  case isFalse => exact h

end CRDTEntry

structure GlobalMemory (V T : Type) where
  nodeId : String
  store : Table (CRDTEntry.place (V := V) (T := T)) := .empty

namespace GlobalMemory

def entry (m : GlobalMemory V T) (p : String × String) : Option (CRDTEntry V T) := m.store.get p

/-- get -/
def shown (m : GlobalMemory V T) (p : String × String) : Option V :=
  (m.entry p).bind fun e => if e.deleted then none else some e.value

variable [LinearOrder T]

/-- An entry is put in the place of an older one or of none. -/
def putEntry (m : GlobalMemory V T) (e : CRDTEntry V T) : GlobalMemory V T :=
  match m.entry e.place with
  | some existing => { m with store := m.store.put (existing.mergeWith e) }
  | none => { m with store := m.store.put e }

/-- A name that is missing or empty is the name of the memory's own node. -/
def author (m : GlobalMemory V T) (nodeId : Option String) : String :=
  if nodeId.getD "" = "" then m.nodeId else nodeId.getD ""

def set (serialize : V → V) (m : GlobalMemory V T) (key : String) (value : V) (ns : String)
    (nodeId : Option String) (now : T) : GlobalMemory V T :=
  m.putEntry {
    key := key
    value := serialize value
    ns := ns
    timestamp := now
    nodeId := m.author nodeId }

/-- The entry becomes a tombstone; it goes on naming the node that wrote it. -/
def delete (m : GlobalMemory V T) (key ns : String) (now : T) : GlobalMemory V T :=
  match m.entry (ns, key) with
  | none => m
  | some e => { m with store := m.store.put { e with deleted := true, timestamp := now } }

def merge (m : GlobalMemory V T) (entries : List (CRDTEntry V T)) : GlobalMemory V T :=
  entries.foldl putEntry m

def getChangesSince (m : GlobalMemory V T) (nodeId : String) (since : T) :
    List (CRDTEntry V T) :=
  m.store.rows.filter fun e => since < e.timestamp ∧ e.nodeId ≠ nodeId

/-- The entries of sync_snapshot, each with the namespace it is listed under. -/
def syncSnapshot (m : GlobalMemory V T) : List (CRDTEntry V T) :=
  m.store.rows.filter fun e => e.deleted = false

@[simp]
theorem nodeId_putEntry (m : GlobalMemory V T) (e : CRDTEntry V T) :
    (m.putEntry e).nodeId = m.nodeId := by
  rw [putEntry]
  split <;> rfl

theorem entry_putEntry (m : GlobalMemory V T) (e : CRDTEntry V T) (p : String × String) :
    (m.putEntry e).entry p =
      if p = e.place then List.argAux (fun b c => c.timestamp < b.timestamp) (m.entry p) e
      else m.entry p := by
  by_cases hp : p = e.place
  · subst hp
    rw [if_pos rfl, putEntry]
    cases hold : m.entry e.place with
    | none => exact Table.get_put_self m.store e
    | some old =>
        have hplace : (old.mergeWith e).place = e.place :=
          CRDTEntry.place_mergeWith (Table.key_of_get hold)
        have hput := Table.get_put_self m.store (old.mergeWith e)
        rw [hplace] at hput
        refine hput.trans ?_
        rw [CRDTEntry.mergeWith]
        exact apply_ite some _ _ _
  · rw [if_neg hp, putEntry]
    cases hold : m.entry e.place with
    | none => exact Table.get_put_of_ne hp
    | some old =>
        refine Table.get_put_of_ne ?_
        rw [CRDTEntry.place_mergeWith (Table.key_of_get hold)]
        exact hp

theorem entry_merge (m : GlobalMemory V T) (entries : List (CRDTEntry V T))
    (p : String × String) : (m.merge entries).entry p =
      (entries.filter fun e => e.place = p).foldl
        (List.argAux fun b c => c.timestamp < b.timestamp) (m.entry p) := by
  induction entries generalizing m with
  | nil => rfl
  | cons e entries ih =>
      rw [merge, List.foldl_cons, ← merge, ih, entry_putEntry, List.filter_cons]
      by_cases hp : e.place = p
      · rw [if_pos hp.symm, if_pos (decide_eq_true hp), List.foldl_cons]
      · rw [if_neg (Ne.symm hp), if_neg (by simpa using hp)]

/-- A memory that was empty holds the newest of the entries it has merged. -/
theorem entry_merge_empty (nodeId : String) (entries : List (CRDTEntry V T))
    (p : String × String) : ((⟨nodeId, .empty⟩ : GlobalMemory V T).merge entries).entry p =
      (entries.filter fun e => e.place = p).argmax CRDTEntry.timestamp :=
  entry_merge _ _ _

end GlobalMemory

end Prodinamik.Memory
