import Mathlib.Data.List.Basic
import Mathlib.Data.Set.Insert

namespace Prodinamik.Lib.SharedLog

variable {N C σ : Type} {apply : σ → C → σ} {init r : σ} {n m : N} {c : C}
  {done rest : List (N × C)}

/-- The meaning of a log of commands, each with the node that has issued it. -/
def replay (apply : σ → C → σ) (init : σ) (log : List (N × C)) : σ :=
  log.foldl (fun r e => apply r e.2) init

theorem replay_concat (log : List (N × C)) :
    replay apply init (log ++ [(m, c)]) = apply (replay apply init log) c := by
  rw [replay, List.foldl_append]
  rfl

/-- Where a node stands that applies its own commands at once and the others as
it goes through the log. It has done the first part of the log and, of the
rest, its own commands, which come before all that are not its own. -/
def Follows (apply : σ → C → σ) (init : σ) (n : N) (done rest : List (N × C)) (r : σ) : Prop :=
  ∃ own others, rest = own ++ others ∧ (∀ e ∈ own, e.1 = n) ∧ (∀ e ∈ others, e.1 ≠ n) ∧
    r = replay apply init (done ++ own)

theorem Follows.start : Follows apply init n [] [] init :=
  ⟨[], [], rfl, fun _ h => absurd h List.not_mem_nil, fun _ h => absurd h List.not_mem_nil, rfl⟩

theorem Follows.others_nil {own others : List (N × C)} (hothers : ∀ e ∈ others, e.1 ≠ n)
    (h : ∀ e ∈ own ++ others, e.1 = n) : others = [] :=
  List.eq_nil_iff_forall_not_mem.mpr fun e he => hothers e he (h e (List.mem_append_right _ he))

/-- A node that has gone through what others have issued issues a command. -/
theorem Follows.issue (h : Follows apply init n done rest r) (hrest : ∀ e ∈ rest, e.1 = n) :
    Follows apply init n done (rest ++ [(n, c)]) (apply r c) := by
  obtain ⟨own, others, rfl, hown, hothers, rfl⟩ := h
  obtain rfl := Follows.others_nil hothers hrest
  refine ⟨own ++ [(n, c)], [], by simp, fun e he => ?_, hothers, ?_⟩
  · obtain he | he := List.mem_append.mp he
    · exact hown e he
    · rw [List.mem_singleton.mp he]
  · rw [← List.append_assoc, replay_concat]

theorem Follows.hear (h : Follows apply init n done rest r) (hne : m ≠ n) :
    Follows apply init n done (rest ++ [(m, c)]) r := by
  obtain ⟨own, others, rfl, hown, hothers, rfl⟩ := h
  refine ⟨own, others ++ [(m, c)], List.append_assoc .., hown, fun e he => ?_, rfl⟩
  obtain he | he := List.mem_append.mp he
  · exact hothers e he
  · rw [List.mem_singleton.mp he]
    exact hne

/-- A command of its own is passed over. -/
theorem Follows.skip (h : Follows apply init n done ((n, c) :: rest) r) :
    Follows apply init n (done ++ [(n, c)]) rest r := by
  obtain ⟨own, others, hrest, hown, hothers, rfl⟩ := h
  cases own with
  | nil =>
      rw [List.nil_append] at hrest
      exact absurd rfl (hothers (n, c) (hrest ▸ List.mem_cons_self))
  | cons e own =>
      obtain ⟨rfl, rfl⟩ := List.cons.inj hrest
      exact ⟨own, others, rfl, fun e he => hown e (List.mem_cons_of_mem _ he), hothers, by simp⟩

/-- A command of another node is applied. -/
theorem Follows.sync (h : Follows apply init n done ((m, c) :: rest) r) (hne : m ≠ n) :
    Follows apply init n (done ++ [(m, c)]) rest (apply r c) := by
  obtain ⟨own, others, hrest, hown, hothers, rfl⟩ := h
  cases own with
  | nil =>
      rw [List.nil_append] at hrest
      subst hrest
      refine ⟨[], rest, rfl, fun _ he => absurd he List.not_mem_nil,
        fun e he => hothers e (List.mem_cons_of_mem _ he), ?_⟩
      rw [List.append_nil, List.append_nil, replay_concat]
  | cons e own =>
      obtain ⟨rfl, rfl⟩ := List.cons.inj hrest
      exact absurd (hown (m, c) List.mem_cons_self) hne

/-- A node that has gone through everything holds what the log says. -/
theorem Follows.settled (h : Follows apply init n done rest r) (hrest : ∀ e ∈ rest, e.1 = n) :
    r = replay apply init (done ++ rest) := by
  obtain ⟨own, others, rfl, -, hothers, rfl⟩ := h
  rw [Follows.others_nil hothers hrest, List.append_nil]

end Prodinamik.Lib.SharedLog

namespace Prodinamik.Lib.ChoiceMerge

variable {α : Type}

/-- How a replica came by its value: which values it merged, in which order
and with which grouping. -/
inductive Merges (α : Type)
  | value (a : α)
  | join (l r : Merges α)

def Merges.eval (op : α → α → α) : Merges α → α
  | .value a => a
  | .join l r => op (l.eval op) (r.eval op)

def Merges.values : Merges α → Set α
  | .value a => {a}
  | .join l r => l.values ∪ r.values

structure Lawful (op : α → α → α) (S : Set α) : Prop where
  idempotent : ∀ a ∈ S, op a a = a
  comm : ∀ a ∈ S, ∀ b ∈ S, op a b = op b a
  assoc : ∀ a ∈ S, ∀ b ∈ S, ∀ c ∈ S, op (op a b) c = op a (op b c)

/-- Replicas that merged the same values hold the same value. -/
def Converges (op : α → α → α) (S : Set α) : Prop :=
  ∀ t u : Merges α, t.values ⊆ S → t.values = u.values → t.eval op = u.eval op

theorem Converges.lawful {op : α → α → α} {S : Set α} (h : Converges op S) : Lawful op S where
  idempotent a ha := h (.join (.value a) (.value a)) (.value a) (by simpa [Merges.values] using ha)
    (by simp [Merges.values])
  comm a ha b hb := h (.join (.value a) (.value b)) (.join (.value b) (.value a))
    (by simp [Merges.values, Set.insert_subset_iff, ha, hb]) (by simp [Merges.values, Set.pair_comm])
  assoc a ha b hb c hc :=
    h (.join (.join (.value a) (.value b)) (.value c)) (.join (.value a) (.join (.value b) (.value c)))
      (by simp [Merges.values, Set.insert_subset_iff, ha, hb, hc])
      (by simp only [Merges.values, Set.union_assoc])

/-- A merge that returns the larger of its two arguments for an order on the
values of S. Outside S nothing is asked of the order. -/
structure PicksMax (op : α → α → α) (le : α → α → Prop) (S : Set α) : Prop where
  antisymm : ∀ a ∈ S, ∀ b ∈ S, le a b → le b a → a = b
  trans : ∀ a ∈ S, ∀ b ∈ S, ∀ c ∈ S, le a b → le b c → le a c
  picks : ∀ a ∈ S, ∀ b ∈ S, (op a b = a ∧ le b a) ∨ (op a b = b ∧ le a b)

theorem PicksMax.refl {op : α → α → α} {le : α → α → Prop} {S : Set α} (h : PicksMax op le S)
    {a : α} (ha : a ∈ S) : le a a := by
  rcases h.picks a ha a ha with ⟨-, hle⟩ | ⟨-, hle⟩ <;> exact hle

/-- Whatever the grouping, the merged value is one of the merged values and
at least as large as all of them. -/
theorem PicksMax.eval_greatest {op : α → α → α} {le : α → α → Prop} {S : Set α}
    (h : PicksMax op le S) (t : Merges α) (ht : t.values ⊆ S) :
    t.eval op ∈ t.values ∧ ∀ a ∈ t.values, le a (t.eval op) := by
  induction t with
  | value a =>
      have ha : a ∈ S := ht rfl
      refine ⟨rfl, fun b hb => ?_⟩
      rw [Set.mem_singleton_iff.mp hb]
      exact h.refl ha
  | join l r ihl ihr =>
      have hl : l.values ⊆ S := Set.subset_union_left.trans ht
      have hr : r.values ⊆ S := Set.subset_union_right.trans ht
      obtain ⟨hml, hgl⟩ := ihl hl
      obtain ⟨hmr, hgr⟩ := ihr hr
      rw [Merges.eval, Merges.values]
      rcases h.picks _ (hl hml) _ (hr hmr) with ⟨heq, hle⟩ | ⟨heq, hle⟩
      · rw [heq]
        refine ⟨Or.inl hml, fun a ha => ?_⟩
        rcases ha with ha | ha
        · exact hgl a ha
        · exact h.trans a (hr ha) _ (hr hmr) _ (hl hml) (hgr a ha) hle
      · rw [heq]
        refine ⟨Or.inr hmr, fun a ha => ?_⟩
        rcases ha with ha | ha
        · exact h.trans a (hl ha) _ (hl hml) _ (hr hmr) (hgl a ha) hle
        · exact hgr a ha

theorem PicksMax.converges {op : α → α → α} {le : α → α → Prop} {S : Set α}
    (h : PicksMax op le S) : Converges op S := by
  intro t u ht heq
  have hu : u.values ⊆ S := heq ▸ ht
  obtain ⟨hmt, hgt⟩ := h.eval_greatest t ht
  obtain ⟨hmu, hgu⟩ := h.eval_greatest u hu
  exact h.antisymm _ (ht hmt) _ (hu hmu) (hgu _ (heq ▸ hmt)) (hgt _ (heq ▸ hmu))

end Prodinamik.Lib.ChoiceMerge
