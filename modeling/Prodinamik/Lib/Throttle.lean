import Mathlib.Algebra.Order.Group.Nat
import Mathlib.Algebra.Order.Group.Unbundled.Basic
import Mathlib.Algebra.Order.Group.Defs
import Mathlib.Algebra.Group.Basic
import Mathlib.Data.List.Basic
import Mathlib.Logic.Function.Basic
import Mathlib.Order.Basic
import Mathlib.Tactic.Abel

namespace Prodinamik.Lib.Throttle

section Requests

variable {T α κ : Type} [AddCommGroup T] [LinearOrder T]

/-- A request is let through when nothing was let through a short while before. -/
def admits (window : T) (last : Option T) (now : T) : Bool :=
  match last with
  | none => true
  | some t => window ≤ now - t

variable (window : T) (reading stamp : α → T)

/-- The requests that are let through, when a request is let through that reads
the clock a window or more after the stamp of the last one. -/
def debounce : Option T → List α → List α
  | _, [] => []
  | last, a :: as =>
      if admits window last (reading a) then a :: debounce (some (stamp a)) as else debounce last as

/-- The stamp that the next request is compared with. -/
def lastStamp (last : Option T) (admitted : List α) : Option T :=
  (admitted.getLast?.map stamp).or last

variable [DecidableEq κ] (key : α → κ)

/-- The same with a stamp for each key. -/
def throttle : (κ → Option T) → List α → List α
  | _, [] => []
  | last, a :: as =>
      if admits window (last (key a)) (reading a) then
        a :: throttle (Function.update last (key a) (some (stamp a))) as
      else throttle last as

variable {window reading stamp key}

theorem debounce_sublist (last : Option T) (as : List α) :
    (debounce window reading stamp last as).Sublist as := by
  induction as generalizing last with
  | nil => exact List.Sublist.refl _
  | cons a as ih =>
      rw [debounce]
      split
      · exact (ih _).cons_cons a
      · exact (ih _).cons a

theorem lastStamp_cons (last : Option T) (a : α) (admitted : List α) :
    lastStamp stamp last (a :: admitted) = lastStamp stamp (some (stamp a)) admitted := by
  cases admitted with
  | nil => rfl
  | cons b admitted => rfl

theorem throttle_sublist (last : κ → Option T) (as : List α) :
    (throttle window reading stamp key last as).Sublist as := by
  induction as generalizing last with
  | nil => exact List.Sublist.refl _
  | cons a as ih =>
      rw [throttle]
      split
      · exact (ih _).cons_cons a
      · exact (ih _).cons a

/-- Requests under one key do not see those under others. -/
theorem filter_throttle (last : κ → Option T) (as : List α) (k : κ) :
    (throttle window reading stamp key last as).filter (fun a => key a = k) =
      debounce window reading stamp (last k) (as.filter fun a => key a = k) := by
  induction as generalizing last with
  | nil => rfl
  | cons a as ih =>
      rw [throttle]
      by_cases hk : key a = k
      · subst hk
        rw [List.filter_cons_of_pos (by simp), debounce]
        split
        · rw [List.filter_cons_of_pos (by simp), ih, Function.update_self]
        · exact ih last
      · rw [List.filter_cons_of_neg (by simpa using hk)]
        split
        · rw [List.filter_cons_of_neg (by simpa using hk), ih,
            Function.update_of_ne (Ne.symm hk)]
        · exact ih last

end Requests

section Ordered

variable {T α : Type} [AddCommGroup T] [LinearOrder T] [IsOrderedAddMonoid T] {window : T}
  {reading stamp : α → T}

/-- The clock does not go back: a request reads it, stamps itself later, and the
next one comes after it. -/
structure InOrder (reading stamp : α → T) (as : List α) : Prop where
  stamped : ∀ a ∈ as, reading a ≤ stamp a
  after : as.Pairwise fun a b => stamp a ≤ reading b

theorem InOrder.tail {a : α} {as : List α} (h : InOrder reading stamp (a :: as)) :
    InOrder reading stamp as :=
  ⟨fun b hb => h.stamped b (List.mem_cons_of_mem _ hb), (List.pairwise_cons.mp h.after).2⟩

theorem InOrder.sublist {as bs : List α} (h : InOrder reading stamp as) (hsub : bs.Sublist as) :
    InOrder reading stamp bs :=
  ⟨fun b hb => h.stamped b (hsub.subset hb), h.after.sublist hsub⟩

theorem inOrder_map {β : Type} {f : β → α} {bs : List β}
    (h : InOrder reading stamp (bs.map f)) : InOrder (reading ∘ f) (stamp ∘ f) bs :=
  ⟨fun b hb => h.stamped (f b) (List.mem_map_of_mem hb), List.pairwise_map.mp h.after⟩

/-- Stamps that are a window apart. -/
def Spaced (window : T) (stamp : α → T) (as : List α) : Prop :=
  as.Pairwise fun a b => stamp a + window ≤ stamp b

/-- What is let through after a stamp is a window later than it. -/
theorem debounce_after {t : T} {as : List α} (h : InOrder reading stamp as)
    (ht : ∀ a ∈ as, t ≤ reading a) :
    ∀ a ∈ debounce window reading stamp (some t) as, t + window ≤ stamp a := by
  induction as generalizing t with
  | nil => exact fun a ha => absurd ha List.not_mem_nil
  | cons b as ih =>
      obtain ⟨hb, has⟩ := List.forall_mem_cons.mp ht
      have hrest := (List.pairwise_cons.mp h.after).1
      have hstamp := h.stamped b List.mem_cons_self
      intro a ha
      rw [debounce] at ha
      split at ha
      case isTrue hadmits =>
        have hspaced : t + window ≤ stamp b := by
          have hle := le_sub_iff_add_le'.mp (of_decide_eq_true hadmits)
          exact hle.trans hstamp
        rcases List.mem_cons.mp ha with rfl | ha
        · exact hspaced
        · -- a later one comes after the stamp of b, which is a window after t
          have hmem := (debounce_sublist _ _).subset ha
          exact hspaced.trans ((hrest a hmem).trans (h.stamped a (List.mem_cons_of_mem _ hmem)))
      case isFalse => exact ih h.tail has a ha

theorem debounce_spaced {last : Option T} {as : List α} (h : InOrder reading stamp as) :
    Spaced window stamp (debounce window reading stamp last as) := by
  induction as generalizing last with
  | nil => exact List.Pairwise.nil
  | cons a as ih =>
      rw [debounce]
      split
      · refine List.pairwise_cons.mpr ⟨fun b hb => ?_, ih h.tail⟩
        exact debounce_after h.tail (List.pairwise_cons.mp h.after).1 b hb
      · exact ih h.tail

/-- So many stamps span so much time. -/
theorem Spaced.span {a b : α} {as : List α} (h : Spaced window stamp (a :: as))
    (hlast : (a :: as).getLast? = some b) : stamp a + as.length • window ≤ stamp b := by
  induction as generalizing a with
  | nil =>
      obtain rfl := Option.some.inj hlast
      simp
  | cons c as ih =>
      have hfirst := (List.pairwise_cons.mp h).1 c List.mem_cons_self
      have hrest := ih (List.pairwise_cons.mp h).2 (by rw [← hlast, List.getLast?_cons_cons])
      rw [List.length_cons, succ_nsmul', ← add_assoc]
      exact (add_le_add_left hfirst _).trans hrest

end Ordered

end Prodinamik.Lib.Throttle
