import Prodinamik.Memory.GlobalMemory

namespace Prodinamik.Memory

open Lib

variable {V T : Type} [LinearOrder T]

/-- A call of set or delete with the reading of its clock. -/
inductive Call (V T : Type)
  | set (key : String) (value : V) (ns : String) (nodeId : Option String) (now : T)
  | delete (key ns : String) (now : T)

namespace Call

def place : Call V T → String × String
  | .set key _ ns _ _ => (ns, key)
  | .delete key ns _ => (ns, key)

def now : Call V T → T
  | .set _ _ _ _ now => now
  | .delete _ _ now => now

def perform (serialize : V → V) (m : GlobalMemory V T) : Call V T → GlobalMemory V T
  | .set key value ns nodeId now => m.set serialize key value ns nodeId now
  | .delete key ns now => m.delete key ns now

end Call

inductive Side
  | a
  | b
  deriving DecidableEq, Repr

/-- Two replicas, and the keys that B has changed since the sync point. -/
structure Session (V T : Type) where
  a : GlobalMemory V T
  b : GlobalMemory V T
  changed : List (String × String) := []

variable [DecidableEq V] (serialize : V → V)

/-- A call on one side. A change of B that is made after the sync point is noted. -/
def Session.call (since : T) (s : Session V T) (c : Side × Call V T) : Session V T :=
  match c.1 with
  | .a => { s with a := c.2.perform serialize s.a }
  | .b =>
      let b := c.2.perform serialize s.b
      { s with
        b := b
        changed :=
          if since < c.2.now ∧ b.entry c.2.place ≠ s.b.entry c.2.place then
            s.changed ++ [c.2.place]
          else s.changed }

namespace GlobalMemory

omit [DecidableEq V]

def HoldsAll (a b : GlobalMemory V T) : Prop := ∀ e ∈ b.store.rows, e ∈ a.store.rows

/-- The key has no newer entry in a than in b. -/
def NotNewer (a b : GlobalMemory V T) (p : String × String) : Prop :=
  ∀ e ∈ a.entry p, ∀ e' ∈ b.entry p, e.timestamp ≤ e'.timestamp

/-- After it has merged the entries A shows what B shows, but where A had a
newer entry. -/
def Agrees (a b : GlobalMemory V T) (entries : List (CRDTEntry V T))
    (places : List (String × String)) : Prop :=
  ∀ p ∈ places, a.NotNewer b p → (a.merge entries).shown p = b.shown p

/-- The entry of B is among those that are sent and the entry of A is older,
where the two do not show the same anyway. -/
def Reaches (a b : GlobalMemory V T) (sent : CRDTEntry V T → Prop)
    (places : List (String × String)) : Prop :=
  ∀ p ∈ places, a.NotNewer b p → a.shown p = b.shown p ∨
    ∃ e' ∈ b.entry p, sent e' ∧ ∀ e ∈ a.entry p, e.timestamp < e'.timestamp

variable {a b : GlobalMemory V T}

theorem entry_merge_filter (sent : CRDTEntry V T → Prop) [DecidablePred sent]
    (p : String × String) : (a.merge (b.store.rows.filter fun e => sent e)).entry p =
      ((b.entry p).toList.filter fun e => sent e).foldl
        (List.argAux fun b c => c.timestamp < b.timestamp) (a.entry p) := by
  have hrows : (b.entry p).toList = b.store.rows.filter fun e => e.place = p :=
    (Table.filter_rows b.store p).symm
  rw [entry_merge, hrows, List.filter_comm]

theorem agrees_iff_reaches (sent : CRDTEntry V T → Prop) [DecidablePred sent]
    (places : List (String × String)) :
    a.Agrees b (b.store.rows.filter fun e => sent e) places ↔ a.Reaches b sent places := by
  refine forall₃_congr fun p _ hnewer => ?_
  have hshown : ∀ m m' : GlobalMemory V T, m.entry p = m'.entry p → m.shown p = m'.shown p := by
    intro m m' h
    rw [shown, shown, h]
  have hmerge := entry_merge_filter (a := a) (b := b) sent p
  cases hb : b.entry p with
  | none =>
      rw [hb] at hmerge
      rw [hshown _ a hmerge]
      simp
  | some e' =>
      rw [hb, Option.toList_some] at hmerge
      by_cases hsent : sent e'
      · rw [List.filter_cons_of_pos (by simpa using hsent)] at hmerge
        have hall : (a.entry p).elim True (fun e => e.timestamp < e'.timestamp) →
            (a.merge (b.store.rows.filter fun e => sent e)).entry p = b.entry p := by
          intro hold
          rw [hmerge, hb]
          cases ha : a.entry p with
          | none => rfl
          | some e =>
              rw [ha] at hold
              exact if_pos hold
        cases ha : a.entry p with
        | none =>
            rw [ha] at hall
            exact iff_of_true (hshown _ b (hall trivial)) (.inr ⟨e', rfl, hsent, by simp⟩)
        | some e =>
            rw [ha] at hall
            by_cases hlt : e.timestamp < e'.timestamp
            · exact iff_of_true (hshown _ b (hall hlt)) (.inr ⟨e', rfl, hsent, by simpa using hlt⟩)
            · have hkept : (a.merge (b.store.rows.filter fun e => sent e)).entry p = a.entry p := by
                rw [hmerge, ha]
                exact if_neg hlt
              rw [hshown _ a hkept]
              simp [hlt]
      · rw [List.filter_cons_of_neg (by simpa using hsent)] at hmerge
        rw [hshown _ a hmerge]
        simp [hsent]

end GlobalMemory

/-- A writes a key at 1 and B takes it over. -/
def writer : GlobalMemory String Nat :=
  GlobalMemory.set id ⟨"node-a", .empty⟩ "config" "one" "default" none 1

def reader : GlobalMemory String Nat :=
  GlobalMemory.merge ⟨"node-b", .empty⟩ (writer.getChangesSince "node-b" 0)

def deletion : List (Side × Call String Nat) := [(.b, .delete "config" "default" 3)]

end Prodinamik.Memory
