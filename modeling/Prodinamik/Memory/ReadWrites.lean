import Prodinamik.Lib.Run
import Prodinamik.Memory.DeltaSync

namespace Prodinamik.Memory

open Lib Lib.Run

variable {V T : Type}

namespace GlobalMemory

def buried (e : CRDTEntry V T) (now : T) : CRDTEntry V T :=
  { e with deleted := true, timestamp := now }

/-- The entries of the namespace become tombstones, each at a time of its own. -/
def clearNamespace (m : GlobalMemory V T) (ns : String) (clock : Nat → T) : GlobalMemory V T :=
  (m.store.rows.filter fun e => e.ns = ns).zipIdx.foldl
    (fun m e => { m with store := m.store.put (buried e.1 (clock e.2)) }) m

theorem shown_put (m : GlobalMemory V T) (e : CRDTEntry V T) (p : String × String) :
    ({ m with store := m.store.put e } : GlobalMemory V T).shown p =
      if p = e.place then (if e.deleted then none else some e.value) else m.shown p := by
  have hget := m.store.get_put e p
  rw [shown, entry, hget]
  split
  case isTrue => rfl
  case isFalse => rfl

theorem shown_bury (es : List (CRDTEntry V T × Nat)) (clock : Nat → T) (m : GlobalMemory V T)
    (p : String × String) :
    (es.foldl (fun m e => ({ m with store := m.store.put (buried e.1 (clock e.2)) } :
      GlobalMemory V T)) m).shown p =
      if p ∈ es.map (fun e => e.1.place) then none else m.shown p := by
  induction es generalizing m with
  | nil => rfl
  | cons e es ih =>
      have hplace : (buried e.1 (clock e.2)).place = e.1.place := rfl
      have hdeleted : (buried e.1 (clock e.2)).deleted = true := rfl
      rw [List.foldl_cons, ih, shown_put, hplace, hdeleted, if_pos rfl, List.map_cons]
      by_cases hp : p = e.1.place
      · have hmem : p ∈ e.1.place :: es.map fun e => e.1.place := by
          rw [hp]
          exact List.mem_cons_self
        rw [if_pos hp, ite_self, if_pos hmem]
      · rw [if_neg hp]
        by_cases hrest : p ∈ es.map fun e => e.1.place
        · rw [if_pos hrest, if_pos (List.mem_cons_of_mem _ hrest)]
        · rw [if_neg hrest, if_neg fun h => (List.mem_cons.mp h).elim hp hrest]

theorem shown_clearNamespace (m : GlobalMemory V T) (ns : String) (clock : Nat → T)
    (p : String × String) :
    (m.clearNamespace ns clock).shown p = if p.1 = ns then none else m.shown p := by
  rw [clearNamespace, shown_bury]
  have hplaces : ∀ es : List (CRDTEntry V T),
      (es.zipIdx.map fun e => e.1.place) = es.map CRDTEntry.place := by
    intro es
    have hcomp : (fun e : CRDTEntry V T × Nat => e.1.place) = CRDTEntry.place ∘ Prod.fst := rfl
    rw [hcomp, ← List.map_map, List.zipIdx_map_fst]
  rw [hplaces]
  by_cases hns : p.1 = ns
  · rw [if_pos hns]
    split
    case isTrue => rfl
    case isFalse habsent =>
      have hnone : m.entry p = none := by
        refine Option.eq_none_iff_forall_ne_some.mpr fun e he => habsent ?_
        obtain ⟨hrow, rfl⟩ := Table.get_eq_some.mp he
        exact List.mem_map_of_mem (List.mem_filter.mpr ⟨hrow, decide_eq_true hns⟩)
      rw [shown, hnone, Option.bind_none]
  · rw [if_neg hns, if_neg]
    intro hmem
    obtain ⟨e, he, rfl⟩ := List.mem_map.mp hmem
    exact hns (of_decide_eq_true (List.mem_filter.mp he).2)

theorem shown_delete (m : GlobalMemory V T) (key ns : String) (now : T) (p : String × String) :
    (m.delete key ns now).shown p = if p = (ns, key) then none else m.shown p := by
  rw [delete]
  cases hold : m.entry (ns, key) with
  | none =>
      simp only
      split
      case isTrue hp => rw [hp, shown, hold, Option.bind_none]
      case isFalse => rfl
  | some e =>
      have hkey : e.place = (ns, key) := Table.key_of_get hold
      have hplace : ({ e with deleted := true, timestamp := now } : CRDTEntry V T).place =
          (ns, key) := hkey
      simp only
      rw [shown_put, hplace, if_pos rfl]

variable [LinearOrder T]

/-- A set takes effect: the entry that is there is older, or it shows the
value already. -/
def Lands (m : GlobalMemory V T) (p : String × String) (value : V) (now : T) : Prop :=
  ∀ e ∈ m.entry p, e.timestamp < now ∨ e.deleted = false ∧ e.value = value

theorem shown_set_iff (serialize : V → V) (m : GlobalMemory V T) (key : String) (value : V)
    (ns : String) (nodeId : Option String) (now : T) :
    (∀ p, (m.set serialize key value ns nodeId now).shown p =
      if p = (ns, key) then some (serialize value) else m.shown p) ↔
      m.Lands (ns, key) (serialize value) now := by
  have hentry : ∀ p, (m.set serialize key value ns nodeId now).entry p =
      if p = (ns, key) then List.argAux (fun b c => c.timestamp < b.timestamp) (m.entry p)
        ⟨key, serialize value, ns, now, m.author nodeId, false⟩
      else m.entry p := entry_putEntry m ⟨key, serialize value, ns, now, m.author nodeId, false⟩
  have hother : ∀ p, p ≠ (ns, key) → (m.set serialize key value ns nodeId now).shown p =
      m.shown p := by
    intro p hp
    rw [shown, hentry, if_neg hp]
    rfl
  have hself : (m.set serialize key value ns nodeId now).shown (ns, key) = some (serialize value) ↔
      m.Lands (ns, key) (serialize value) now := by
    rw [shown, hentry, if_pos rfl, Lands]
    cases hold : m.entry (ns, key) with
    | none => exact iff_of_true rfl fun e he => by cases he
    | some old =>
        simp only [Option.mem_def, Option.some.injEq, forall_eq', List.argAux]
        by_cases hlate : old.timestamp < now
        · rw [if_pos hlate]
          exact iff_of_true rfl (.inl hlate)
        · rw [if_neg hlate, Option.bind_some, or_iff_right hlate]
          cases hdeleted : old.deleted with
          | true => simp
          | false => simp
  constructor
  · intro h
    rw [← hself, h, if_pos rfl]
  · intro h p
    split
    case isTrue hp => rw [hp, hself.mpr h]
    case isFalse hp => exact hother p hp

end GlobalMemory

/-- A call on one memory. -/
inductive Request (V T : Type)
  | call (c : Call V T)
  | clearNamespace (ns : String) (clock : Nat → T)
  | get (key ns : String)

/-- A memory, and what a plain map would hold after the same calls. -/
structure Twin (V T : Type) where
  memory : GlobalMemory V T
  plain : String × String → Option V

namespace Twin

open GlobalMemory

variable [LinearOrder T] (serialize : V → V)

/-- The last set of each key after its last delete or clear. -/
def written (plain : String × String → Option V) : Request V T → String × String → Option V
  | .call (.set key value ns _ _), p => if p = (ns, key) then some (serialize value) else plain p
  | .call (.delete key ns _), p => if p = (ns, key) then none else plain p
  | .clearNamespace ns _, p => if p.1 = ns then none else plain p
  | .get _ _, p => plain p

def performed (m : GlobalMemory V T) : Request V T → GlobalMemory V T
  | .call c => c.perform serialize m
  | .clearNamespace ns clock => m.clearNamespace ns clock
  | .get _ _ => m

def step (t : Twin V T) (r : Request V T) : Twin V T :=
  ⟨performed serialize t.memory r, written serialize t.plain r⟩

def start (nodeId : String) : Twin V T := ⟨⟨nodeId, .empty⟩, fun _ => none⟩

/-- Whatever key is read, get returns what was written. -/
def ReadsWrites (t : Twin V T) : Prop := ∀ p, t.memory.shown p = t.plain p

def Fits (t : Twin V T) : Request V T → Prop
  | .call (.set key value ns _ now) => t.memory.Lands (ns, key) (serialize value) now
  | _ => True

theorem step_readsWrites_iff {t : Twin V T} (h : t.ReadsWrites) (r : Request V T) :
    (step serialize t r).ReadsWrites ↔ Fits serialize t r := by
  cases r with
  | call c =>
      cases c with
      | set key value ns nodeId now =>
          refine Iff.trans (forall_congr' fun p => ?_)
            (shown_set_iff serialize t.memory key value ns nodeId now)
          simp only [step, written, performed, Call.perform, h p]
      | delete key ns now =>
          refine iff_of_true (fun p => ?_) trivial
          simp only [step, written, performed, Call.perform]
          rw [shown_delete, h p]
  | clearNamespace ns clock =>
      refine iff_of_true (fun p => ?_) trivial
      simp only [step, written, performed]
      rw [shown_clearNamespace, h p]
  | get key ns => exact iff_of_true h trivial

/-- Every get returns the last write exactly where each set finds no entry of
its key, an older one, or one that shows the value already. -/
theorem reads_writes_iff (nodeId : String) (requests : List (Request V T)) :
    Always (step serialize) ReadsWrites (start nodeId) requests ↔
      Steps (step serialize) (Fits serialize) (start nodeId) requests :=
  along_iff_steps (fun _ => True) (fun _ _ _ => trivial)
    (fun _ r _ h => (and_iff_left trivial).trans (step_readsWrites_iff serialize h r)) trivial
    (fun _ => rfl) requests

/-- What the clock shows during a request, from the first reading to the last. -/
def readings (t : Twin V T) : Request V T → List T
  | .call c => [c.now]
  | .clearNamespace ns clock =>
      (List.range (t.memory.store.rows.countP fun e => e.ns = ns)).map clock
  | .get _ _ => []

def allReadings (t : Twin V T) : List (Request V T) → List T
  | [] => []
  | r :: rs => t.readings r ++ (step serialize t r).allReadings rs

/-- A second set at the same reading of the clock is lost. -/
theorem not_reads_writes :
    ¬ ∀ (nodeId : String) (requests : List (Request Nat Nat)),
      (allReadings id (start nodeId) requests).Pairwise (· ≤ ·) →
        Always (step id) ReadsWrites (start nodeId) requests := by
  intro h
  have hlast := (h "n" [.call (.set "k" 1 "t" none 5), .call (.set "k" 2 "t" none 5)]
    (by decide)).last
  exact absurd (hlast ("t", "k")) (by decide)

end Twin

end Prodinamik.Memory
