import Mathlib.Data.List.Basic
import Mathlib.Data.List.Chain
import Mathlib.Data.List.Nodup
import Mathlib.Data.Set.Card
import Mathlib.Data.Set.Finite.Lemmas
import Mathlib.Logic.Relation

namespace Prodinamik.Lib.Graph

open Relation

variable {α : Type*} {r : α → α → Prop}

/-- Everything that can be reached from here leads back. -/
def Bottom (r : α → α → Prop) (x : α) : Prop := ∀ y, ReflTransGen r x y → ReflTransGen r y x

/-- A vertex from which only finitely many are reached leads into a bottom
component: a vertex that reaches the fewest others is in one. -/
theorem exists_bottom {x : α} (hfin : {y | ReflTransGen r x y}.Finite) :
    ∃ y, ReflTransGen r x y ∧ Bottom r y := by
  obtain ⟨y, hy, hmin⟩ := Set.exists_min_image {y | ReflTransGen r x y}
    (fun y => {z | ReflTransGen r y z}.ncard) hfin ⟨x, .refl⟩
  refine ⟨y, hy, fun z hz => ?_⟩
  have hsub : {w | ReflTransGen r z w} ⊆ {w | ReflTransGen r y w} := fun w hw => hz.trans hw
  have hfinite : {w | ReflTransGen r y w}.Finite := hfin.subset fun w hw => hy.trans hw
  have heq := Set.eq_of_subset_of_ncard_le hsub (hmin z (hy.trans hz)) hfinite
  have hself : y ∈ {w | ReflTransGen r y w} := .refl
  rw [← heq] at hself
  exact hself

/-- A path to another vertex leaves through an edge to another vertex. -/
theorem exists_exit {x y : α} (h : ReflTransGen r x y) (hne : y ≠ x) : ∃ z, r x z ∧ z ≠ x := by
  by_contra hstay
  rw [not_exists] at hstay
  have hall : ∀ y, ReflTransGen r x y → y = x := by
    intro y hy
    induction hy with
    | refl => rfl
    | tail _ hstep ih =>
        subst ih
        by_contra hz
        exact hstay _ ⟨hstep, hz⟩
  exact hne (hall y h)

end Prodinamik.Lib.Graph

namespace Prodinamik.Lib.Worklist

open Relation

variable {α : Type} [DecidableEq α] {next : α → List α}

/-- A loop that takes nodes from the front of a queue until it is empty, and puts the
successors of a new node at its end if they are not known yet. -/
inductive Drains (next : α → List α) : List α → List α → List α → Prop
  | done {reached : List α} : Drains next [] reached reached
  | skip {a : α} {queue reached result : List α} (hknown : a ∈ reached)
      (hrest : Drains next queue reached result) : Drains next (a :: queue) reached result
  | visit {a : α} {queue reached result : List α} (hnew : a ∉ reached)
      (hrest : Drains next (queue ++ (next a).filter (· ∉ a :: reached)) (a :: reached) result) :
      Drains next (a :: queue) reached result

def Edge (next : α → List α) (a b : α) : Prop := b ∈ next a

/-- Successors of what is reached are reached or wait. -/
def Frontier (next : α → List α) (queue reached : List α) : Prop :=
  ∀ a ∈ reached, ∀ b ∈ next a, b ∈ reached ∨ b ∈ queue

theorem Drains.deterministic {queue reached r r' : List α} (h : Drains next queue reached r)
    (h' : Drains next queue reached r') : r = r' := by
  induction h with
  | done =>
      cases h'
      rfl
  | skip hknown _ ih =>
      cases h' with
      | skip _ hrest => exact ih hrest
      | visit hnew => exact absurd hknown hnew
  | visit hnew _ ih =>
      cases h' with
      | skip hknown => exact absurd hknown hnew
      | visit _ hrest => exact ih hrest

omit [DecidableEq α] in
theorem Frontier.skip {a : α} {queue reached : List α} (h : Frontier next (a :: queue) reached)
    (hknown : a ∈ reached) : Frontier next queue reached := by
  intro b hb c hc
  obtain hc | hc := h b hb c hc
  · exact .inl hc
  · obtain rfl | hc := List.mem_cons.mp hc
    · exact .inl hknown
    · exact .inr hc

theorem Frontier.visit {a : α} {queue reached : List α} (h : Frontier next (a :: queue) reached) :
    Frontier next (queue ++ (next a).filter (· ∉ a :: reached)) (a :: reached) := by
  intro b hb c hc
  by_cases hknown : c ∈ a :: reached
  · exact .inl hknown
  · refine .inr (List.mem_append.mpr ?_)
    obtain rfl | hb := List.mem_cons.mp hb
    · exact .inr (List.mem_filter.mpr ⟨hc, decide_eq_true hknown⟩)
    · obtain hc | hc := h b hb c hc
      · exact absurd (List.mem_cons_of_mem _ hc) hknown
      · exact .inl ((List.mem_cons.mp hc).resolve_left fun heq => hknown (heq ▸ List.mem_cons_self))

/-- What was in the queue and what was reached stays, and the end has no frontier. -/
theorem Drains.closed {queue reached r : List α} (h : Drains next queue reached r)
    (hfrontier : Frontier next queue reached) :
    (∀ a ∈ queue, a ∈ r) ∧ (∀ a ∈ reached, a ∈ r) ∧ ∀ a ∈ r, ∀ b ∈ next a, b ∈ r := by
  induction h with
  | done =>
      refine ⟨by simp, fun a ha => ha, fun a ha b hb => ?_⟩
      exact (hfrontier a ha b hb).resolve_right List.not_mem_nil
  | skip hknown _ ih =>
      obtain ⟨hqueue, hreached, hclosed⟩ := ih (hfrontier.skip hknown)
      refine ⟨fun b hb => ?_, hreached, hclosed⟩
      obtain rfl | hb := List.mem_cons.mp hb
      · exact hreached b hknown
      · exact hqueue b hb
  | visit _ _ ih =>
      obtain ⟨hqueue, hreached, hclosed⟩ := ih hfrontier.visit
      refine ⟨fun b hb => ?_, fun b hb => hreached b (List.mem_cons_of_mem _ hb), hclosed⟩
      obtain rfl | hb := List.mem_cons.mp hb
      · exact hreached b List.mem_cons_self
      · exact hqueue b (List.mem_append_left _ hb)

theorem Drains.reached {queue reached r : List α} (h : Drains next queue reached r) :
    ∀ a ∈ r, a ∈ reached ∨ ∃ b ∈ queue, ReflTransGen (Edge next) b a := by
  induction h with
  | done => exact fun a ha => .inl ha
  | skip _ _ ih =>
      intro b hb
      refine (ih b hb).imp_right ?_
      exact fun ⟨c, hc, hreach⟩ => ⟨c, List.mem_cons_of_mem _ hc, hreach⟩
  | @visit a _ _ _ _ _ ih =>
      intro b hb
      obtain hb | ⟨c, hc, hreach⟩ := ih b hb
      · obtain rfl | hb := List.mem_cons.mp hb
        · exact .inr ⟨b, List.mem_cons_self, .refl⟩
        · exact .inl hb
      · obtain hc | hc := List.mem_append.mp hc
        · exact .inr ⟨c, List.mem_cons_of_mem _ hc, hreach⟩
        · exact .inr ⟨a, List.mem_cons_self, .head (List.mem_filter.mp hc).1 hreach⟩

/-- The loop collects what can be reached from the queue. -/
theorem Drains.mem_iff {queue r : List α} (h : Drains next queue [] r) (a : α) :
    a ∈ r ↔ ∃ b ∈ queue, ReflTransGen (Edge next) b a := by
  obtain ⟨hqueue, -, hclosed⟩ := h.closed fun b hb => absurd hb List.not_mem_nil
  constructor
  · intro ha
    exact (h.reached a ha).resolve_left List.not_mem_nil
  · rintro ⟨b, hb, hreach⟩
    induction hreach with
    | refl => exact hqueue b hb
    | tail _ hedge ih => exact hclosed _ ih _ hedge

end Prodinamik.Lib.Worklist

namespace Prodinamik.Lib.Ancestry

variable {α : Type} [DecidableEq α] (next : α → Option α)

/-- The way along a partial function, until it ends or comes to what has been met.
What was met last is first. -/
def walk : Nat → List α → α → Option (List α)
  | 0, _, _ => none
  | fuel + 1, met, a =>
      match next a with
      | none => some (a :: met)
      | some b => if b ∈ a :: met then some (a :: met) else walk fuel (a :: met) b

/-- A way to an element on which nothing comes twice. -/
structure Path (a : α) (line : List α) : Prop where
  last : line.getLast? = some a
  link : line.IsChain fun x y => next y = some x
  nodup : line.Nodup

/-- All that comes before an element: what is first has nothing before it that is not there. -/
structure Lineage (a : α) (line : List α) : Prop extends Path next a line where
  first : ∀ x ∈ line.head?, ∀ y, next x = some y → y ∈ line

variable {next} {a x : α} {met line : List α}

theorem path_singleton (a : α) : Path next a [a] :=
  ⟨rfl, List.isChain_singleton a, List.nodup_singleton a⟩

theorem Path.cons (h : Path next a (x :: met)) {y : α} (hy : next x = some y) (hnew : y ∉ x :: met) :
    Path next a (y :: x :: met) :=
  ⟨by rw [List.getLast?_cons_cons, h.last], h.link.cons_cons hy, List.nodup_cons.mpr ⟨hnew, h.nodup⟩⟩

/-- A walk that comes to an end has found the lineage. -/
theorem lineage_of_walk {fuel : Nat} (h : Path next a (x :: met))
    (hwalk : walk next fuel met x = some line) : Lineage next a line := by
  induction fuel generalizing met x with
  | zero => cases hwalk
  | succ fuel ih =>
      rw [walk] at hwalk
      cases hnext : next x with
      | none =>
          rw [hnext] at hwalk
          obtain rfl := Option.some.inj hwalk
          refine ⟨h, fun x' hx' y hy => ?_⟩
          obtain rfl := Option.some.inj hx'
          rw [hnext] at hy
          cases hy
      | some b =>
          rw [hnext] at hwalk
          dsimp only at hwalk
          split at hwalk
          case isTrue hmem =>
            obtain rfl := Option.some.inj hwalk
            refine ⟨h, fun x' hx' y hy => ?_⟩
            obtain rfl := Option.some.inj hx'
            rw [hnext] at hy
            exact Option.some.inj hy ▸ hmem
          case isFalse hnew => exact ih (h.cons hnext hnew) hwalk

/-- Among finitely many elements it comes to an end. -/
theorem exists_walk {nodes : List α} (hclosed : ∀ x y, next x = some y → y ∈ nodes) {fuel : Nat}
    (h : Path next a (x :: met)) (hmet : x :: met ⊆ nodes)
    (hfuel : nodes.length ≤ fuel + met.length) : ∃ line, walk next fuel met x = some line := by
  induction fuel generalizing met x with
  | zero =>
      have hle := (h.nodup.subperm hmet).length_le
      rw [List.length_cons] at hle
      omega
  | succ fuel ih =>
      rw [walk]
      cases hnext : next x with
      | none => exact ⟨_, rfl⟩
      | some b =>
          dsimp only
          split
          case isTrue => exact ⟨_, rfl⟩
          case isFalse hnew =>
            refine ih (h.cons hnext hnew) (List.cons_subset.mpr ⟨hclosed x b hnext, hmet⟩) ?_
            rw [List.length_cons]
            omega

/-- From any element of a lineage the walk finds the rest of it. -/
theorem walk_of_lineage {before : List α} (h : Lineage next a (before ++ x :: met)) {fuel : Nat}
    (hfuel : before.length < fuel) : walk next fuel met x = some (before ++ x :: met) := by
  induction before using List.reverseRecOn generalizing met x fuel with
  | nil =>
      obtain ⟨fuel, rfl⟩ := Nat.exists_eq_add_of_lt hfuel
      rw [walk]
      cases hnext : next x with
      | none => rfl
      | some b => exact if_pos (h.first x rfl b hnext)
  | append_singleton before y ih =>
      rw [List.append_assoc, List.singleton_append] at h ⊢
      rw [List.length_append, List.length_singleton] at hfuel
      obtain ⟨fuel, rfl⟩ := Nat.exists_eq_add_of_lt hfuel
      have hnext : next x = some y := (List.isChain_cons_cons.mp (List.isChain_append.mp h.link).2.1).1
      have hnew : y ∉ x :: met := (List.nodup_cons.mp (List.nodup_append.mp h.nodup).2.1).1
      rw [walk, hnext]
      exact (if_neg hnew).trans (ih h (by omega))

/-- An element has one lineage at most. -/
theorem Lineage.unique {line' : List α} (h : Lineage next a line) (h' : Lineage next a line') :
    line = line' := by
  have hsplit : ∀ {line : List α}, Lineage next a line → ∃ before, line = before ++ [a] :=
    fun h => (List.getLast?_eq_some_iff.mp h.last)
  obtain ⟨before, rfl⟩ := hsplit h
  obtain ⟨before', rfl⟩ := hsplit h'
  have hwalk := walk_of_lineage h (Nat.lt_succ_of_le (Nat.le_add_right before.length before'.length))
  rw [walk_of_lineage h' (Nat.lt_succ_of_le (Nat.le_add_left before'.length before.length))] at hwalk
  exact (Option.some.inj hwalk).symm

end Prodinamik.Lib.Ancestry
