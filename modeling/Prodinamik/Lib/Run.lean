namespace Prodinamik.Lib.Run

variable {σ α : Type} (step : σ → α → σ)

/-- One property of every state of a run and one of every action together with
the state it is taken in. -/
def Along (state : σ → Prop) (action : σ → α → Prop) : σ → List α → Prop
  | s, [] => state s
  | s, a :: as => state s ∧ action s a ∧ Along state action (step s a) as

/-- Every action is taken in a state that allows it. -/
abbrev Steps (action : σ → α → Prop) : σ → List α → Prop := Along step (fun _ => True) action

/-- Every state of a run. -/
abbrev Always (state : σ → Prop) : σ → List α → Prop := Along step state fun _ _ => True

instance decidableAlong (state : σ → Prop) (action : σ → α → Prop) [DecidablePred state]
    [∀ s, DecidablePred (action s)] : ∀ (s : σ) (as : List α), Decidable (Along step state action s as)
  | s, [] => inferInstanceAs (Decidable (state s))
  | s, a :: as =>
      have := decidableAlong state action (step s a) as
      inferInstanceAs (Decidable (state s ∧ action s a ∧ Along step state action (step s a) as))

variable {step}

theorem Along.first {state : σ → Prop} {action : σ → α → Prop} {s : σ} {as : List α}
    (h : Along step state action s as) : state s := by
  cases as with
  | nil => exact h
  | cons a as => exact h.1

/-- What every step from a state of the invariant keeps holds along the run. -/
theorem along_of_invariant {inv : σ → Prop} {allowed : σ → α → Prop}
    (hstep : ∀ s a, inv s → allowed s a → inv (step s a)) {s : σ} (hs : inv s) {as : List α}
    (has : Steps step allowed s as) :
    Along step inv (fun s a => inv s ∧ allowed s a) s as := by
  induction as generalizing s with
  | nil => exact hs
  | cons a as ih => exact ⟨hs, ⟨hs, has.2.1⟩, ih (hstep s a hs has.2.1) has.2.2⟩

/-- What every step keeps holds in every state of a run. -/
theorem always_of_step {inv : σ → Prop} (hstep : ∀ s a, inv s → inv (step s a)) {s : σ} (hs : inv s)
    (as : List α) : Always step inv s as := by
  induction as generalizing s with
  | nil => exact hs
  | cons a as ih => exact ⟨hs, trivial, ih (hstep s a hs)⟩

theorem Along.imp {state state' : σ → Prop} {action action' : σ → α → Prop}
    (hstate : ∀ s, state s → state' s) (haction : ∀ s a, action s a → action' s a) {s : σ}
    {as : List α} (h : Along step state action s as) : Along step state' action' s as := by
  induction as generalizing s with
  | nil => exact hstate s h
  | cons a as ih => exact ⟨hstate s h.1, haction s a h.2.1, ih h.2.2⟩

/-- A run whose every step is right exactly when it is allowed; the states
may be known to keep something of their own. -/
theorem along_iff_steps (known : σ → Prop) {inv : σ → Prop} {action allowed : σ → α → Prop}
    (hknown : ∀ s a, known s → known (step s a))
    (hstep : ∀ s a, known s → inv s → ((inv (step s a) ∧ action s a) ↔ allowed s a)) {s : σ}
    (hk : known s) (hs : inv s) (as : List α) :
    Along step inv action s as ↔ Steps step allowed s as := by
  induction as generalizing s with
  | nil => exact iff_of_true hs trivial
  | cons a as ih =>
      constructor
      · rintro ⟨-, ha, has⟩
        exact ⟨trivial, (hstep s a hk hs).mp ⟨has.first, ha⟩,
          (ih (hknown s a hk) has.first).mp has⟩
      · rintro ⟨-, ha, has⟩
        obtain ⟨hinv, haction⟩ := (hstep s a hk hs).mpr ha
        exact ⟨hs, haction, (ih (hknown s a hk) hinv).mpr has⟩

/-- In a run of proper actions every state is right exactly when every step
is allowed. -/
theorem always_iff_steps (known : σ → Prop) {inv : σ → Prop} {proper allowed : σ → α → Prop}
    (hstep : ∀ s a, known s → inv s → proper s a →
      known (step s a) ∧ (inv (step s a) ↔ allowed s a)) {s : σ} (hk : known s) (hs : inv s)
    {as : List α} (has : Steps step proper s as) :
    Always step inv s as ↔ Steps step allowed s as := by
  induction as generalizing s with
  | nil => exact iff_of_true hs trivial
  | cons a as ih =>
      obtain ⟨-, ha, has⟩ := has
      obtain ⟨hknown, hiff⟩ := hstep s a hk hs ha
      constructor
      · rintro ⟨-, -, hrest⟩
        exact ⟨trivial, hiff.mp hrest.first, (ih hknown hrest.first has).mp hrest⟩
      · rintro ⟨-, hallowed, hrest⟩
        have hinv := hiff.mpr hallowed
        exact ⟨hs, trivial, (ih hknown hinv has).mpr hrest⟩

/-- A run of admitted actions that is right at every step has only allowed
ones; what is known of the states may follow from the actions being right. -/
theorem steps_of_along (known : σ → Prop) {inv : σ → Prop} {action allowed : σ → α → Prop}
    {admitted : α → Prop}
    (hstep : ∀ s a, known s → inv s → admitted a → inv (step s a) → action s a →
      known (step s a) ∧ allowed s a) {s : σ} (hk : known s) {as : List α}
    (has : ∀ a ∈ as, admitted a) (h : Along step inv action s as) : Steps step allowed s as := by
  induction as generalizing s with
  | nil => trivial
  | cons a as ih =>
      obtain ⟨hs, ha, hrest⟩ := h
      obtain ⟨hnext, hallowed⟩ := hstep s a hk hs (has a List.mem_cons_self) hrest.first ha
      exact ⟨trivial, hallowed, ih hnext (fun b hb => has b (List.mem_cons_of_mem _ hb)) hrest⟩

/-- Two requirements that agree on admitted actions hold along the same runs of them. -/
theorem steps_iff_of_known (known : σ → Prop) {action allowed : σ → α → Prop} {admitted : α → Prop}
    (hknown : ∀ s a, known s → known (step s a))
    (hstep : ∀ s a, known s → admitted a → (action s a ↔ allowed s a)) {s : σ} (hk : known s)
    {as : List α} (has : ∀ a ∈ as, admitted a) :
    Steps step action s as ↔ Steps step allowed s as := by
  induction as generalizing s with
  | nil => exact Iff.rfl
  | cons a as ih =>
      obtain ⟨ha, has⟩ := List.forall_mem_cons.mp has
      exact and_congr_right fun _ => and_congr (hstep s a hk ha) (ih (hknown s a hk) has)

theorem Steps.and {allowed allowed' : σ → α → Prop} {s : σ} {as : List α}
    (h : Steps step allowed s as) (h' : Steps step allowed' s as) :
    Steps step (fun s a => allowed s a ∧ allowed' s a) s as := by
  induction as generalizing s with
  | nil => trivial
  | cons a as ih => exact ⟨trivial, ⟨h.2.1, h'.2.1⟩, ih h.2.2 h'.2.2⟩

theorem steps_cons {action : σ → α → Prop} {s : σ} {a : α} {as : List α} :
    Steps step action s (a :: as) ↔ action s a ∧ Steps step action (step s a) as :=
  iff_of_eq (true_and _)

theorem steps_append {action : σ → α → Prop} {s : σ} {as bs : List α} :
    Steps step action s (as ++ bs) ↔
      Steps step action s as ∧ Steps step action (as.foldl step s) bs := by
  induction as generalizing s with
  | nil => exact (iff_of_eq (true_and _)).symm
  | cons a as ih => rw [List.cons_append, List.foldl_cons, steps_cons, steps_cons, ih, and_assoc]

theorem Along.last {state : σ → Prop} {action : σ → α → Prop} {s : σ} {as : List α}
    (h : Along step state action s as) : state (as.foldl step s) := by
  induction as generalizing s with
  | nil => exact h
  | cons a as ih => exact ih h.2.2

theorem Along.last_action {state : σ → Prop} {action : σ → α → Prop} {s : σ} {as : List α} {a : α}
    (h : Along step state action s (as ++ [a])) : action (as.foldl step s) a := by
  induction as generalizing s with
  | nil => exact h.2.1
  | cons b as ih => exact ih h.2.2

end Prodinamik.Lib.Run

namespace Prodinamik.Lib.FiniteTrace

variable {σ : Type} (a b : σ → Bool)

/-- At every position before the first b there is an a. -/
def untilHolds : List σ → Bool
  | [] => true
  | s :: trace => b s || (a s && untilHolds trace)

theorem untilHolds_snoc (trace : List σ) (s : σ) : untilHolds a b (trace ++ [s]) =
    (untilHolds a b trace && (trace.any b || b s || a s)) := by
  induction trace with
  | nil => simp [untilHolds]
  | cons r trace ih =>
      rw [List.cons_append, untilHolds, untilHolds, ih, List.any_cons]
      cases b r <;> simp [Bool.and_assoc]

end Prodinamik.Lib.FiniteTrace
