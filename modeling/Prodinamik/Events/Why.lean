import Prodinamik.Events.Pages
import Prodinamik.Lib.Graph

namespace Prodinamik.Events

open Lib.Ancestry

/-- How a number is read from a text and how an event and its cost are shown. -/
structure DebugTexts where
  int : String → Option Int
  summary : Event → String
  cost : Rat → String

namespace EventStore

/-- get with a number that may be negative. -/
def getInt (s : EventStore) (sequence : Int) : Option Event :=
  if 0 ≤ sequence then s.get sequence.toNat else none

/-- The event that the parent_id of another one leads to. -/
def parent (s : EventStore) (e : Event) : Option Event :=
  match e.parentId with
  | none => none
  | some id => if id = 0 then none else s.getInt id

/-- The while loop of _cmd_why; none is a loop that has not come to its end. -/
def causalLoop (s : EventStore) : Nat → List Event → Event → List Int → Option (List Event)
  | 0, _, _, _ => none
  | fuel + 1, chain, current, seen =>
      match current.parentId with
      | none => some chain
      | some id =>
        if id = 0 ∨ id ∈ seen then some chain
        else
          match s.getInt id with
          | none => some chain
          | some parent => causalLoop s fuel (chain ++ [parent]) parent (parent.sequence :: seen)

/-- The causal chain from the root cause to an event. -/
def causalChain (s : EventStore) (event : Event) : Option (List Event) :=
  (s.causalLoop s.index.length [event] event [(event.sequence : Int)]).map List.reverse

end EventStore

namespace DebugTexts

variable (t : DebugTexts)

def whyLines (i : Nat) (e : Event) : List String :=
  ["\n   ⬆️ **Why #" ++ toString i ++ "?**", "      `" ++ t.summary e ++ "`",
    "      Type: `" ++ e.eventType ++ "`, Cost: `$" ++ t.cost e.costUsd ++ "`"]

/-- The report; of a long chain only the first six events are shown. -/
def whyText (slug eventId : String) (event : Event) (chain : List Event) : String :=
  let root := chain.head?.getD event
  "\n".intercalate (
    ["🔍 **5-Why Analysis:** `" ++ slug ++ "` Event `#" ++ eventId ++ "`",
      "   Problem: `" ++ t.summary event ++ "`"] ++
    ((chain.take 6).zipIdx 1).flatMap (fun x => t.whyLines x.2 x.1) ++
    (if 6 < chain.length then ["\n   ... and " ++ toString (chain.length - 6) ++ " more"] else []) ++
    ["\n   **Root Cause:** `" ++ t.summary root ++ "`",
      "   **Recommendation:** Review `" ++ root.eventType ++ "` at `#" ++ toString root.sequence ++ "`"])

def cmdWhy (store : Option EventStore) (slug eventId : Option String) : Option String :=
  let slug := slug.getD ""
  let eventId := eventId.getD ""
  if slug = "" ∨ eventId = "" then some "❌ Usage: /debug why <slug> <event_id>"
  else
    match store with
    | none => some "❌ EventStore not configured. Use `EventStore` to enable debug commands."
    | some s =>
      match t.int eventId with
      | none => some ("❌ Invalid event_id: " ++ eventId)
      | some id =>
        match s.getInt id with
        | none => some ("❌ Event #" ++ toString id ++ " not found")
        | some event => (s.causalChain event).map (t.whyText slug eventId event)

end DebugTexts

namespace EventStore

variable {s : EventStore}

theorem getInt_eq_some {id : Int} {e : Event} :
    s.getInt id = some e ↔ ∃ n : Nat, id = n ∧ s.get n = some e := by
  rw [getInt]
  split
  case isTrue hid =>
    obtain ⟨n, rfl⟩ := Int.eq_ofNat_of_zero_le hid
    exact ⟨fun h => ⟨n, rfl, h⟩, fun ⟨m, hm, h⟩ => by rwa [hm]⟩
  case isFalse hid =>
    refine iff_of_false (Option.some_ne_none e).symm ?_
    rintro ⟨n, rfl, -⟩
    exact hid (Int.natCast_nonneg n)

/-- An event is stored under its number. -/
def Stored (s : EventStore) (e : Event) : Prop := s.get e.sequence = some e

theorem Sound.stored (h : s.Sound) {n : Nat} {e : Event} (he : s.get n = some e) :
    s.Stored e ∧ e.sequence = n := by
  obtain ⟨rfl, -⟩ := h.sequence he
  exact ⟨he, rfl⟩

theorem Sound.parent_eq_some (h : s.Sound) {e p : Event} (hp : s.parent e = some p) :
    s.Stored p ∧ e.parentId = some (p.sequence : Int) := by
  rw [parent] at hp
  split at hp
  case h_1 => cases hp
  case h_2 id hid =>
    split at hp
    case isTrue => cases hp
    case isFalse =>
      obtain ⟨n, rfl, hn⟩ := getInt_eq_some.mp hp
      obtain ⟨hstored, hsequence⟩ := h.stored hn
      exact ⟨hstored, hsequence.symm ▸ hid⟩

/-- A number that has been seen is that of an event that has been met. -/
theorem Stored.mem_seen {p : Event} (hp : s.Stored p) {met : List Event}
    (hmet : ∀ e ∈ met, s.Stored e) :
    (p.sequence : Int) ∈ met.map (fun e => (e.sequence : Int)) ↔ p ∈ met := by
  refine ⟨fun hmem => ?_, fun hmem => List.mem_map_of_mem hmem⟩
  obtain ⟨e, he, heq⟩ := List.mem_map.mp hmem
  have hstored := hmet e he
  rw [Stored, Int.ofNat_inj.mp heq, hp] at hstored
  exact Option.some.inj hstored ▸ he

/-- In a sound store the loop goes from each event to its parent. -/
theorem Sound.causalLoop_eq (h : s.Sound) (fuel : Nat) {current : Event} {met : List Event}
    (hmet : ∀ e ∈ current :: met, s.Stored e) :
    (s.causalLoop fuel (current :: met).reverse current
      ((current :: met).map fun e => (e.sequence : Int))).map List.reverse =
        walk s.parent fuel met current := by
  induction fuel generalizing current met with
  | zero => rfl
  | succ fuel ih =>
      rw [causalLoop, walk]
      cases hparent : s.parent current with
      | none =>
          rw [parent] at hparent
          split at hparent
          case h_1 => exact congrArg some (List.reverse_reverse _)
          case h_2 id hid =>
            split at hparent
            case isTrue hzero =>
              dsimp only
              rw [if_pos (Or.inl hzero), Option.map_some, List.reverse_reverse]
            case isFalse =>
              dsimp only
              rw [hparent]
              split
              · rw [Option.map_some, List.reverse_reverse]
              · rw [Option.map_some, List.reverse_reverse]
      | some p =>
          obtain ⟨hp, hid⟩ := h.parent_eq_some hparent
          have hpositive := (h.sequence hp).2
          have hget : s.getInt p.sequence = some p := getInt_eq_some.mpr ⟨_, rfl, hp⟩
          have hzero : (p.sequence : Int) ≠ 0 := by omega
          rw [hid]
          dsimp only
          by_cases hmem : p ∈ current :: met
          · rw [if_pos (Or.inr ((hp.mem_seen hmet).mpr hmem)), if_pos hmem, Option.map_some,
              List.reverse_reverse]
          · rw [if_neg (not_or.mpr ⟨hzero, mt (hp.mem_seen hmet).mp hmem⟩), if_neg hmem, hget]
            dsimp only
            rw [← ih (List.forall_mem_cons.mpr ⟨hp, hmet⟩), List.reverse_cons (a := p),
              List.map_cons (a := p)]

/-- The chain of a stored event is found, and it is its lineage. -/
theorem Sound.causalChain (h : s.Sound) {event : Event} (hevent : s.Stored event) :
    ∃ chain, s.causalChain event = some chain ∧ Lineage s.parent event chain := by
  have hall : ∀ e ∈ [event], s.Stored e := List.forall_mem_singleton.mpr hevent
  have hnodes : ∀ e, s.Stored e → e ∈ s.index.filterMap s.get := fun e he =>
    List.mem_filterMap.mpr ⟨e.sequence, (get_eq_some.mp he).1, he⟩
  have hlength : (s.index.filterMap s.get).length ≤ s.index.length :=
    List.length_filterMap_le s.get s.index
  obtain ⟨chain, hwalk⟩ := exists_walk (fun x y hy => hnodes y (h.parent_eq_some hy).1)
    (path_singleton event) (List.cons_subset.mpr ⟨hnodes event hevent, List.nil_subset _⟩) hlength
  refine ⟨chain, ?_, lineage_of_walk (path_singleton event) hwalk⟩
  rw [← hwalk, ← h.causalLoop_eq s.index.length hall]
  rfl

end EventStore

def plainTexts : DebugTexts where
  int text := if text = "2" then some 2 else none
  summary := Event.eventType
  cost := toString

def circleEvent (sequence : Nat) (parentId : Int) : Event where
  sequence := sequence
  runSlug := "flux"
  timestamp := "2026-05-18T08:00:00"
  eventType := "error"
  parentId := some parentId

/-- Three events; the first of them names the last one as its parent. -/
def circle : EventStore :=
  [Incident.request (.call (.appendMany ([3, 1, 2].map fun id => ⟨circleEvent 0 id, true⟩)))].foldl
    (EventStore.step ⟨fun _ => none, fun _ => none⟩) (.start [])

end Prodinamik.Events
