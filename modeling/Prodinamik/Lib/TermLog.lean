import Mathlib.Algebra.Order.Group.Int
import Mathlib.Data.Finset.Card
import Mathlib.Data.List.Basic
import Mathlib.Tactic.Common

namespace Prodinamik.Lib.TermLog

variable {α : Type} {term : α → Int} {leaderLog leaderLog' : Int → List α}

/-- The term of the last entry, or 0. -/
def lastTerm (term : α → Int) (log : List α) : Int :=
  match log.getLast? with
  | some entry => term entry
  | none => 0

/-- Up to each of its entries, the log is what the leader of that entry's
term has. -/
def Traced (term : α → Int) (leaderLog : Int → List α) (log : List α) : Prop :=
  ∀ k entry, log[k]? = some entry → log.take (k + 1) <+: leaderLog (term entry)

/-- The log check of a vote: a later last term, or the same one and no
shorter a log. -/
structure Fresher (term : α → Int) (log other : List α) : Prop where
  term_le : lastTerm term other ≤ lastTerm term log
  length_le : lastTerm term other = lastTerm term log → other.length ≤ log.length

theorem Fresher.refl (log : List α) : Fresher term log log := ⟨le_rfl, fun _ => le_rfl⟩

theorem prefix_take_succ {p log : List α} {k : Nat} {entry : α} (hp : p <+: log)
    (hk : p[k]? = some entry) : p.take (k + 1) = log.take (k + 1) := by
  obtain ⟨rest, rfl⟩ := hp
  obtain ⟨hlt, -⟩ := List.getElem?_eq_some_iff.mp hk
  rw [List.take_append_of_le_length (by omega)]

theorem prefix_getElem? {p log : List α} (hp : p <+: log) {k : Nat} {entry : α}
    (hk : p[k]? = some entry) : log[k]? = some entry := by
  obtain ⟨rest, rfl⟩ := hp
  obtain ⟨hlt, -⟩ := List.getElem?_eq_some_iff.mp hk
  rw [List.getElem?_append_left hlt, hk]

theorem traced_nil : Traced term leaderLog ([] : List α) := by
  intro k entry hk
  simp at hk

namespace Traced

variable {log other p : List α}

theorem mono (h : Traced term leaderLog log) (hgrow : ∀ t, leaderLog t <+: leaderLog' t) :
    Traced term leaderLog' log :=
  fun k entry hk => (h k entry hk).trans (hgrow _)

theorem snoc (h : Traced term leaderLog log) {entry : α}
    (hlast : leaderLog (term entry) = log ++ [entry]) : Traced term leaderLog (log ++ [entry]) := by
  intro k e hk
  by_cases hlt : k < log.length
  · rw [List.getElem?_append_left hlt] at hk
    rw [List.take_append_of_le_length (by omega)]
    exact h k e hk
  · obtain ⟨hk', hget⟩ := List.getElem?_eq_some_iff.mp hk
    rw [List.length_append, List.length_singleton] at hk'
    obtain rfl : k = log.length := by omega
    have he : e = entry := by simpa using hget.symm
    rw [he, hlast]
    exact List.take_prefix _ _

theorem take_eq (h : Traced term leaderLog log) {k : Nat} {entry : α}
    (hk : log[k]? = some entry) : (leaderLog (term entry)).take (k + 1) = log.take (k + 1) := by
  have hpre := h k entry hk
  obtain ⟨hlt, -⟩ := List.getElem?_eq_some_iff.mp hk
  have hlen : (log.take (k + 1)).length = k + 1 := by
    rw [List.length_take]
    omega
  have heq := List.prefix_iff_eq_take.mp hpre
  rw [hlen] at heq
  exact heq.symm

/-- Two logs with entries of one term at one position agree up to there. -/
theorem agree (h : Traced term leaderLog log) (h' : Traced term leaderLog other) {k : Nat}
    {a b : α} (ha : log[k]? = some a) (hb : other[k]? = some b) (hterm : term a = term b) :
    log.take (k + 1) = other.take (k + 1) := by
  rw [← h.take_eq ha, ← h'.take_eq hb, hterm]

theorem get_leaderLog (h : Traced term leaderLog log) {k : Nat} {entry : α}
    (hk : log[k]? = some entry) : (leaderLog (term entry))[k]? = some entry :=
  prefix_getElem? (h k entry hk) (by rw [List.getElem?_take_of_lt (Nat.lt_succ_self k), hk])

theorem prefix_of_last (h : Traced term leaderLog log) (h' : Traced term leaderLog other)
    (hne : log ≠ []) {entry : α} (hget : other[log.length - 1]? = some entry)
    (hterm : term entry = lastTerm term log) : log <+: other := by
  have hpos := List.length_pos_iff.mpr hne
  have hlast : log.getLast? = some log[log.length - 1] := by
    rw [List.getLast?_eq_getElem?, List.getElem?_eq_getElem]
  have hsame : term log[log.length - 1] = term entry := by
    rw [hterm, lastTerm, hlast]
  have hagree := h.agree h' (List.getElem?_eq_getElem (by omega)) hget hsame
  rw [Nat.sub_add_cancel hpos, List.take_length] at hagree
  rw [hagree]
  exact List.take_prefix _ _

variable (hbound : ∀ t, ∀ entry ∈ leaderLog t, term entry ≤ t)

include hbound

/-- Terms never decrease along a log. -/
theorem term_le (h : Traced term leaderLog log) {j k : Nat} {a b : α} (hjk : j ≤ k)
    (ha : log[j]? = some a) (hb : log[k]? = some b) : term a ≤ term b := by
  have hpre := h k b hb
  apply hbound (term b) a
  apply hpre.subset
  have htake : (log.take (k + 1))[j]? = some a := by
    rw [List.getElem?_take_of_lt (by omega), ha]
  exact List.mem_of_getElem? htake

theorem term_le_lastTerm (h : Traced term leaderLog log) {k : Nat} {a : α}
    (ha : log[k]? = some a) : term a ≤ lastTerm term log := by
  obtain ⟨hlt, -⟩ := List.getElem?_eq_some_iff.mp ha
  have hlast : log.getLast? = some log[log.length - 1] := by
    rw [List.getLast?_eq_getElem?, List.getElem?_eq_getElem]
  rw [lastTerm, hlast]
  exact h.term_le hbound (by omega) ha (List.getElem?_eq_getElem (by omega))

omit hbound in
theorem whole (h : Traced term leaderLog log) (hne : log ≠ []) :
    log <+: leaderLog (lastTerm term log) := by
  have hpos := List.length_pos_iff.mpr hne
  have hlast : log.getLast? = some log[log.length - 1] := by
    rw [List.getLast?_eq_getElem?, List.getElem?_eq_getElem]
  have hpre := h (log.length - 1) log[log.length - 1] (List.getElem?_eq_getElem (by omega))
  rw [lastTerm, hlast]
  rwa [Nat.sub_add_cancel hpos, List.take_length] at hpre

/-- A log that is as fresh as one with the prefix p has the prefix p too, if
the leaders of all later terms have it. -/
theorem carries (hlog : Traced term leaderLog log) (hother : Traced term leaderLog other)
    (hfresh : Fresher term log other) {t : Int} {k : Nat} {entry : α} (ht : 0 ≤ t)
    (hk : (leaderLog t)[k]? = some entry) (hterm : term entry = t)
    (hhas : (leaderLog t).take (k + 1) <+: other)
    (hlater : ∀ u, t < u → u = lastTerm term log → leaderLog u ≠ [] →
      (leaderLog t).take (k + 1) <+: leaderLog u) :
    (leaderLog t).take (k + 1) <+: log := by
  have htake : ((leaderLog t).take (k + 1))[k]? = some entry := by
    rw [List.getElem?_take_of_lt (by omega), hk]
  have hentry := prefix_getElem? hhas htake
  have hle : t ≤ lastTerm term other := hterm ▸ hother.term_le_lastTerm hbound hentry
  have hne' : other ≠ [] := by
    rintro rfl
    simp at hentry
  rcases eq_or_lt_of_le hfresh.term_le with heq | hlt
  · have hlen := hfresh.length_le heq
    have hne : log ≠ [] := by
      rintro rfl
      exact hne' (List.length_eq_zero_iff.mp (by simpa using hlen))
    have hwhole := hother.whole hne'
    rw [heq] at hwhole
    exact hhas.trans (List.prefix_of_prefix_length_le hwhole (hlog.whole hne) hlen)
  · have hne : log ≠ [] := by
      rintro rfl
      simp only [lastTerm, List.getLast?_nil] at hlt hle
      omega
    have hwhole := hlog.whole hne
    have hleader : leaderLog (lastTerm term log) ≠ [] := by
      intro hnil
      rw [hnil] at hwhole
      exact hne (List.prefix_nil.mp hwhole)
    have hsub := hlater _ (by omega) rfl hleader
    refine List.prefix_of_prefix_length_le hsub hwhole ?_
    by_contra hshort
    have hpos := List.length_pos_iff.mpr hne
    have hlast : log.getLast? = some log[log.length - 1] := by
      rw [List.getLast?_eq_getElem?, List.getElem?_eq_getElem]
    have hmem : log[log.length - 1] ∈ (leaderLog t).take (k + 1) := by
      have h1 := prefix_getElem? hwhole (List.getElem?_eq_getElem (by omega) :
        log[log.length - 1]? = some log[log.length - 1])
      obtain ⟨rest, hrest⟩ := hsub
      rw [← hrest, List.getElem?_append_left (by omega)] at h1
      exact List.mem_of_getElem? h1
    have hsmall := hbound t _ (List.mem_of_mem_take hmem)
    have hbig : lastTerm term log = term log[log.length - 1] := by
      rw [lastTerm, hlast]
    omega

end Traced

end Prodinamik.Lib.TermLog

namespace Prodinamik.Lib.Quorum

variable {α : Type} [DecidableEq α] {members p q : Finset α}

/-- More than half of the members. -/
structure IsMajority (members q : Finset α) : Prop where
  subset : q ⊆ members
  card_lt : members.card < 2 * q.card

theorem IsMajority.inter_nonempty (hp : IsMajority members p) (hq : IsMajority members q) :
    (p ∩ q).Nonempty := by
  have hunion : (p ∪ q).card ≤ members.card :=
    Finset.card_le_card (Finset.union_subset hp.subset hq.subset)
  have hcard := Finset.card_union_add_card_inter p q
  have hlp := hp.card_lt
  have hlq := hq.card_lt
  apply Finset.card_pos.mp
  omega

/-- Members with one vote each give majorities to one candidate at most. -/
theorem IsMajority.unique {β : Type} {vote : α → Option β} {a b : β}
    (hp : IsMajority members p) (hq : IsMajority members q) (ha : ∀ v ∈ p, vote v = some a)
    (hb : ∀ v ∈ q, vote v = some b) : a = b := by
  obtain ⟨v, hv⟩ := hp.inter_nonempty hq
  obtain ⟨hvp, hvq⟩ := Finset.mem_inter.mp hv
  apply Option.some_injective
  rw [← ha v hvp, ← hb v hvq]

end Prodinamik.Lib.Quorum
