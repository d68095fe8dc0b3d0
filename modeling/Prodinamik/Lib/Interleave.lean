import Mathlib.Data.List.Basic
import Mathlib.Logic.Hydra
import Mathlib.Order.WellFounded

/-! Tasks that take turns on one state, in any order. -/

namespace Prodinamik.Lib.Interleave

variable {σ τ β : Type} (turn : τ → σ → τ × σ)

/-- One turn of the task at a position. -/
def step (x : List τ × σ) (i : Nat) : List τ × σ :=
  match x.1[i]? with
  | none => x
  | some t => (x.1.set i (turn t x.2).1, (turn t x.2).2)

def run (x : List τ × σ) (schedule : List Nat) : List τ × σ := schedule.foldl (step turn) x

/-- A schedule after which every task has had n turns more. -/
def rounds (n length : Nat) (schedule : List Nat) : List Nat :=
  schedule ++ (List.replicate n (List.range length)).flatten

theorem le_count_rounds (n length : Nat) (schedule : List Nat) {i : Nat} (hi : i < length) :
    n ≤ (rounds n length schedule).count i := by
  have hround : n ≤ (List.replicate n (List.range length)).flatten.count i := by
    induction n with
    | zero => exact Nat.zero_le _
    | succ n ih =>
        rw [List.replicate_succ, List.flatten_cons, List.count_append]
        have hone : 0 < (List.range length).count i :=
          List.count_pos_iff.mpr (List.mem_range.mpr hi)
        omega
  rw [rounds, List.count_append]
  omega

variable {turn}

theorem getElem?_step (x : List τ × σ) (i j : Nat) :
    (step turn x i).1[j]? = if i = j then x.1[j]?.map (fun t => (turn t x.2).1) else x.1[j]? := by
  cases h : x.1[i]? with
  | none =>
      rw [step, h]
      by_cases hij : i = j
      · simp [← hij, h]
      · rw [if_neg hij]
  | some t =>
      rw [step, h, List.getElem?_set]
      by_cases hij : i = j
      · subst hij
        rw [if_pos rfl, if_pos (List.getElem?_eq_some_iff.mp h).1, if_pos rfl, h, Option.map_some]
      · rw [if_neg hij, if_neg hij]

theorem step_snd {x : List τ × σ} {i : Nat} {t : τ} (h : x.1[i]? = some t) :
    (step turn x i).2 = (turn t x.2).2 := by
  rw [step, h]

theorem step_none {x : List τ × σ} {i : Nat} (h : x.1[i]? = none) : step turn x i = x := by
  rw [step, h]

theorem run_induction {P : List τ × σ → Prop} (hstep : ∀ x i, P x → P (step turn x i))
    {x : List τ × σ} (hx : P x) (schedule : List Nat) : P (run turn x schedule) := by
  induction schedule generalizing x with
  | nil => exact hx
  | cons i schedule ih => exact ih (hstep x i hx)

/-- A task keeps what none of its turns changes. -/
theorem map_getElem?_run (owner : τ → β) (howner : ∀ t s, owner (turn t s).1 = owner t)
    (x : List τ × σ) (schedule : List Nat) (j : Nat) :
    (run turn x schedule).1[j]?.map owner = x.1[j]?.map owner := by
  refine run_induction (P := fun y => y.1[j]?.map owner = x.1[j]?.map owner) (fun y i hy => ?_) rfl
    schedule
  rw [getElem?_step, ← hy]
  split
  case isTrue =>
      rw [Option.map_map]
      exact Option.map_congr fun t _ => howner t y.2
  case isFalse => rfl

/-- Every turn brings a task closer to its end, by one at least. -/
theorem left_run (left : τ → Nat) (hleft : ∀ t s, left (turn t s).1 ≤ left t - 1)
    {x : List τ × σ} {schedule : List Nat} {j : Nat} {u : τ}
    (h : (run turn x schedule).1[j]? = some u) :
    ∃ t, x.1[j]? = some t ∧ left u ≤ left t - schedule.count j := by
  induction schedule generalizing x with
  | nil => exact ⟨u, h, Nat.le_refl _⟩
  | cons i schedule ih =>
      obtain ⟨t, ht, hle⟩ := ih (x := step turn x i) h
      rw [getElem?_step] at ht
      by_cases hij : i = j
      · subst hij
        rw [if_pos rfl, Option.map_eq_some_iff] at ht
        obtain ⟨t', ht', rfl⟩ := ht
        have := hleft t' x.2
        refine ⟨t', ht', ?_⟩
        rw [List.count_cons_self]
        omega
      · rw [if_neg hij] at ht
        exact ⟨t, ht, by rwa [List.count_cons_of_ne hij]⟩

/-- What the turns of every task keep. -/
theorem run_invariant {P : τ → Prop} {I : σ → Prop}
    (hturn : ∀ t s, P t → I s → P (turn t s).1 ∧ I (turn t s).2) {x : List τ × σ}
    (htasks : ∀ t ∈ x.1, P t) (hx : I x.2) (schedule : List Nat) : I (run turn x schedule).2 := by
  refine (run_induction (P := fun y => (∀ t ∈ y.1, P t) ∧ I y.2) (fun y i hy => ?_) ⟨htasks, hx⟩
    schedule).2
  rw [step]
  cases h : y.1[i]? with
  | none => exact hy
  | some t =>
      obtain ⟨hP, hI⟩ := hturn t y.2 (hy.1 t (List.mem_of_getElem? h)) hy.2
      refine ⟨fun u hu => ?_, hI⟩
      rcases List.mem_or_eq_of_mem_set hu with hu | rfl
      · exact hy.1 u hu
      · exact hP

variable (turn) in
/-- Every task keeps what it owns: its own turns do, and those of the tasks it
is related to. -/
theorem run_owned {R : τ → τ → Prop} {Q : τ → σ → Prop}
    (hR : ∀ t u s, R t u → R (turn t s).1 u ∧ R u (turn t s).1)
    (hself : ∀ t s, Q t s → Q (turn t s).1 (turn t s).2)
    (hother : ∀ t u s, R t u → Q u s → Q u (turn t s).2) {x : List τ × σ}
    (hrel : ∀ (i j : Nat) t u, i ≠ j → x.1[i]? = some t → x.1[j]? = some u → R t u)
    (hx : ∀ t ∈ x.1, Q t x.2) (schedule : List Nat) :
    ∀ t ∈ (run turn x schedule).1, Q t (run turn x schedule).2 := by
  refine (run_induction (P := fun y =>
    (∀ (i j : Nat) t u, i ≠ j → y.1[i]? = some t → y.1[j]? = some u → R t u) ∧ ∀ t ∈ y.1, Q t y.2)
    (fun y k hy => ?_) ⟨hrel, hx⟩ schedule).2
  obtain ⟨hy, hQ⟩ := hy
  cases h : y.1[k]? with
  | none =>
      rw [step_none h]
      exact ⟨hy, hQ⟩
  | some t =>
      constructor
      · intro i j u v hij hu hv
        rw [getElem?_step] at hu hv
        by_cases hki : k = i
        · subst hki
          rw [if_neg hij] at hv
          rw [if_pos rfl, h, Option.map_some, Option.some.injEq] at hu
          subst hu
          exact (hR t v y.2 (hy k j t v hij h hv)).1
        · rw [if_neg hki] at hu
          by_cases hkj : k = j
          · subst hkj
            rw [if_pos rfl, h, Option.map_some, Option.some.injEq] at hv
            subst hv
            exact (hR t u y.2 (hy k i t u hki h hu)).2
          · rw [if_neg hkj] at hv
            exact hy i j u v hij hu hv
      · intro u hu
        obtain ⟨j, hj⟩ := List.mem_iff_getElem?.mp hu
        rw [step_snd h]
        rw [getElem?_step] at hj
        by_cases hkj : k = j
        · subst hkj
          rw [if_pos rfl, h, Option.map_some, Option.some.injEq] at hj
          subst hj
          exact hself t y.2 (hQ t (List.mem_of_getElem? h))
        · rw [if_neg hkj] at hj
          exact hother t u y.2 (hy k j t u hkj h hj) (hQ u (List.mem_of_getElem? hj))

end Prodinamik.Lib.Interleave

namespace Prodinamik.Lib.TaskPool

variable {τ : Type} (r : τ → τ → Prop)

/-- One task leaves the pool, and tasks that are all below it come in. -/
def Next (s' s : List τ) : Prop :=
  ∃ i t new, s[i]? = some t ∧ (∀ u ∈ new, r u t) ∧ s' = s.eraseIdx i ++ new

variable {r}

theorem Next.cutExpand {s' s : List τ} (h : Next r s' s) :
    Relation.CutExpand r (s' : Multiset τ) (s : Multiset τ) := by
  obtain ⟨i, t, new, hi, hnew, rfl⟩ := h
  obtain ⟨hlt, rfl⟩ := List.getElem?_eq_some_iff.mp hi
  refine ⟨(new : Multiset τ), s[i], hnew, ?_⟩
  have herase : (s[i] :: s.eraseIdx i : List τ).Perm s := List.getElem_cons_eraseIdx_perm hlt
  rw [← Multiset.coe_eq_coe.mpr herase, ← Multiset.coe_add, ← Multiset.cons_coe,
    Multiset.cons_add, ← Multiset.singleton_add]
  exact add_comm _ _

/-- No pool can be worked on for ever, whichever task has its turn next. -/
theorem wellFounded_next (hr : WellFounded r) : WellFounded (Next r) :=
  Subrelation.wf Next.cutExpand (InvImage.wf (fun s : List τ => (s : Multiset τ)) hr.cutExpand)

variable {σ : Type} {pool : σ → List τ}

/-- A run whose steps are all turns of a task, as long as there is one, comes to
a state with an empty pool. -/
theorem exists_empty (hr : WellFounded r) (run : Nat → σ)
    (hstep : ∀ n, pool (run n) ≠ [] → Next r (pool (run (n + 1))) (pool (run n))) :
    ∃ n, pool (run n) = [] := by
  by_contra hnever
  push Not at hnever
  obtain ⟨s, ⟨n, rfl⟩, hmin⟩ := (wellFounded_next hr).has_min (Set.range fun n => pool (run n))
    ⟨_, 0, rfl⟩
  exact hmin _ ⟨n + 1, rfl⟩ (hstep n (hnever n))

end Prodinamik.Lib.TaskPool
