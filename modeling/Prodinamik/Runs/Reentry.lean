import Prodinamik.Runs.Crash
import Prodinamik.Runs.History

namespace Prodinamik.Runs

open Machine Lib.Run

/-- The self-transitions of a state since it was last entered from another. -/
def reentries (taken : List (String × String)) (name : String) : Nat :=
  (taken.reverse.takeWhile fun e => e = (name, name)).length

theorem reentries_append (taken : List (String × String)) (e : String × String) (name : String) :
    reentries (taken ++ [e]) name = if e = (name, name) then reentries taken name + 1 else 0 := by
  rw [reentries, List.reverse_append, List.reverse_singleton, List.singleton_append]
  by_cases h : e = (name, name)
  · rw [if_pos h, List.takeWhile_cons_of_pos (by rwa [decide_eq_true_eq]), List.length_cons]
    rfl
  · rw [if_neg h, List.takeWhile_cons_of_neg (by rwa [decide_eq_true_eq])]
    rfl

def maxReentriesMessage (name : String) (k : Int) : String :=
  "Max reentries (" ++ toString k ++ ") exceeded for state '" ++ name ++ "'"

/-- The message update_state refuses another self-transition with. -/
def reentryRefusal (name : String) (k : Int) : String :=
  "Transition " ++ name ++ " → " ++ name ++ " rejected: " ++ maxReentriesMessage name k

def StartsWith (c : Char) (s : String) : Prop := s.toList.head? = some c

theorem StartsWith.append {c : Char} {s : String} (h : StartsWith c s) (t : String) :
    StartsWith c (s ++ t) := by
  rw [StartsWith, String.toList_append, List.head?_append, h]
  rfl

theorem StartsWith.ne {c d : Char} {s t : String} (hs : StartsWith c s) (ht : StartsWith d t)
    (hne : c ≠ d) : s ≠ t := by
  rintro rfl
  exact hne (Option.some.inj (hs.symm.trans ht))

theorem maxReentriesMessage_startsWith (name : String) (k : Int) :
    StartsWith 'M' (maxReentriesMessage name k) := by
  have h : StartsWith 'M' "Max reentries (" := by
    rw [StartsWith]
    decide +kernel
  exact (((h.append _).append _).append _).append _

theorem reentryCount_lt_of_ok {sm : StateMachine} {name : String} {rt rt' : RuntimeState}
    (h : sm.canTransition name name rt = .ok rt') {state : StateDefinition}
    (hstate : sm.config.state name = some state) {k : Int} (hk : state.maxReentries = some k) :
    rt.reentryCount < k := by
  by_contra hge
  rw [StateMachine.canTransition, hstate] at h
  simp only at h
  split at h
  · cases h
  · split at h
    · cases h
    · split at h
      · cases h
      · rw [if_pos ⟨trivial, k, hk, not_lt.mp hge⟩] at h
        cases h

theorem le_reentryCount_of_error {sm : StateMachine} {name : String} {rt : RuntimeState}
    {state : StateDefinition} (hstate : sm.config.state name = some state) {k : Int}
    (hk : state.maxReentries = some k)
    (h : sm.canTransition name name rt = .error (maxReentriesMessage name k)) :
    k ≤ rt.reentryCount := by
  have hmax := maxReentriesMessage_startsWith name k
  generalize maxReentriesMessage name k = message at h hmax
  rw [StateMachine.canTransition, hstate] at h
  simp only at h
  split at h
  · have hcannot : StartsWith 'C' "Cannot transition from terminal state '" := by
      rw [StartsWith]
      decide +kernel
    exact absurd (Except.error.inj h) (((hcannot.append _).append _).ne hmax (by decide))
  · split at h
    · have hno : StartsWith 'N' "No transition from '" := by
        rw [StartsWith]
        decide +kernel
      exact absurd (Except.error.inj h)
        (((((hno.append _).append _).append _).append _).ne hmax (by decide))
    · split at h
      · have hhuman : StartsWith 'T' "Transition requires human approval" := by
          rw [StartsWith]
          decide +kernel
        exact absurd (Except.error.inj h) (hhuman.ne hmax (by decide))
      · split at h
        · rename_i hcount
          obtain ⟨-, k', hk', hle⟩ := hcount
          rw [hk] at hk'
          cases hk'
          exact hle
        · split at h
          · have hcondition : StartsWith 'T' "Transition condition not met: " := by
              rw [StartsWith]
              decide +kernel
            exact absurd (Except.error.inj h) ((hcondition.append _).ne hmax (by decide))
          · split at h
            · cases h
            · cases h

variable (digest : WalEntry → String) (profile : ProductProfile) (slug : String)

/-- No more self-transitions than the limit of a state. -/
def WithinLimit (config : StateMachineConfig) (s : Trail) : Prop :=
  ∀ name state k, config.state name = some state → state.maxReentries = some k →
    (reentries s.taken name : Int) ≤ max k 0

/-- A self-transition is not refused for the limit before the limit is used up. -/
def FullAllowance (config : StateMachineConfig) (s : Trail) (c : UpdateCall) : Prop :=
  ∀ state k, currentState s.disk slug = some c.toState → config.state c.toState = some state →
    state.maxReentries = some k → (reentries s.taken c.toState : Int) < k →
      updateState digest s.disk slug c.toState profile c.overrides c.now c.walTime ≠
        .error (reentryRefusal c.toState k)

/-- The reentry_count given to a self-transition is on the same side of the
limit as the number of self-transitions that were taken. -/
def CountGiven (config : StateMachineConfig) (s : Trail) (c : UpdateCall) : Prop :=
  ∀ state k, currentState s.disk slug = some c.toState → config.state c.toState = some state →
    state.maxReentries = some k →
      (k ≤ givenReentries c.overrides ↔ k ≤ reentries s.taken c.toState)

variable {digest profile slug} {sm : StateMachine}

theorem withinLimit_update (hsm : profile.stateMachine = some sm) {s : Trail} {c : UpdateCall}
    (h : WithinLimit sm.config s) (hgiven : CountGiven slug sm.config s c) :
    WithinLimit sm.config (s.update digest profile slug c) := by
  obtain ⟨e, he⟩ | ⟨writes, m, fromState, rt, rt', hok, hcurrent, hcount, hcan⟩ :=
    updateState_cases digest s.disk slug c.toState hsm c.overrides c.now c.walTime
  · rw [Trail.update, he]
    exact h
  · rw [Trail.update, hok, hcurrent]
    intro name state k hstate hk
    simp only
    rw [reentries_append]
    by_cases hself : (fromState, c.toState) = (name, name)
    · rw [if_pos hself]
      obtain ⟨rfl, hto⟩ := Prod.mk.inj hself
      rw [hto] at hcan
      have hlt := reentryCount_lt_of_ok hcan hstate hk
      rw [hcount] at hlt
      have hside := (hgiven state k (by rw [hcurrent, hto]) (by rw [hto]; exact hstate) hk).not
      rw [hto, not_le, not_le] at hside
      have hlt' := hside.mp hlt
      have hmax := le_max_left k 0
      push_cast
      omega
    · rw [if_neg hself]
      exact le_max_right k 0

theorem fullAllowance_of_countGiven (hsm : profile.stateMachine = some sm) {s : Trail}
    {c : UpdateCall} (hgiven : CountGiven slug sm.config s c) :
    FullAllowance digest profile slug sm.config s c := by
  intro state k hcurrent hstate hk hlt herror
  have hside := (hgiven state k hcurrent hstate hk).not
  rw [not_le, not_le] at hside
  refine absurd (hside.mpr hlt) (not_lt.mpr ?_)
  rw [currentState] at hcurrent
  rw [updateState] at herror
  cases hdir : s.disk.active slug with
  | none => rw [hdir] at hcurrent; cases hcurrent
  | some dir =>
      rw [hdir, Option.map_some] at hcurrent
      rw [hdir] at herror
      simp only at herror
      cases hread : Disk.readMeta slug dir with
      | error e => rw [hread] at hcurrent; cases hcurrent
      | ok stored =>
          cases stored with
          | none => rw [hread] at hcurrent; cases hcurrent
          | some stored =>
              rw [hread] at hcurrent herror
              have hleaving : stored.leaving.state = c.toState := by
                rw [RunMeta.leaving, ← Option.some.inj hcurrent]
                split <;> rfl
              simp only at herror
              rw [checkTransition, Option.bind_some, hsm] at herror
              simp only [hleaving] at herror
              split at herror
              · rename_i e he
                split at he
                · rename_i reason hcan
                  cases he
                  rw [Except.error.injEq, reentryRefusal, String.append_right_inj] at herror
                  rw [herror] at hcan
                  have := le_reentryCount_of_error hstate hk hcan
                  rwa [reentryCount_foldl] at this
                · cases he
              · cases herror

/-- A run keeps to the re-entry limits if every self-transition is called with
its count. -/
theorem reentries_limited (hsm : profile.stateMachine = some sm) (d : Disk)
    {calls : List UpdateCall} (hgiven : Steps (Trail.update digest profile slug)
      (CountGiven slug sm.config) ⟨d, []⟩ calls) :
    Along (Trail.update digest profile slug) (WithinLimit sm.config)
      (FullAllowance digest profile slug sm.config) ⟨d, []⟩ calls := by
  refine Along.imp (fun _ h => h) (fun _ _ h => fullAllowance_of_countGiven hsm h.2)
    (along_of_invariant (fun _ _ h hc => withinLimit_update hsm h hc) ?_ hgiven)
  intro name state k _ _
  exact le_max_right k 0

/-- A draft may be taken up once more. -/
def drafting : StateMachine where
  config :=
    { states :=
        [("draft", { name := "draft", stateType := .initial, maxReentries := some 1 }),
          ("published", .once "published" .terminal)]
      transitions :=
        [{ fromState := "draft", toState := "draft" }, { fromState := "draft", toState := "published" }]
      nodup := by decide }
  accepted := by decide

def drafts : ProductProfile := ⟨"drafts", some drafting⟩

def drafted : Disk :=
  runOps (fun _ => "") {} [.create "A" drafts "a" a_named (atMinute 0) (atMinute 1)]

def redraft (overrides : List Override) : UpdateCall where
  toState := "draft"
  overrides := overrides
  now := atMinute 2
  walTime := atMinute 3

/-- The draft is taken up twice. -/
theorem not_reentries_limited : ¬ ∀ (digest : WalEntry → String) (profile : ProductProfile)
    (slug : String) (sm : StateMachine) (d : Disk) (calls : List UpdateCall),
    profile.stateMachine = some sm → Along (Trail.update digest profile slug)
      (WithinLimit sm.config) (FullAllowance digest profile slug sm.config) ⟨d, []⟩ calls := by
  intro h
  have htwice := (h (fun _ => "") drafts "a" drafting drafted [redraft [], redraft []] rfl).2.2.2.2
  have hlimit : (reentries (Trail.update (fun _ => "") drafts "a"
      (Trail.update (fun _ => "") drafts "a" ⟨drafted, []⟩ (redraft [])) (redraft [])).taken
        "draft" : Int) ≤ 1 := htwice "draft" _ 1 rfl rfl
  revert hlimit
  decide +kernel

theorem reentries_limited_redraft : Along (Trail.update (fun _ => "") drafts "a")
    (WithinLimit drafting.config) (FullAllowance (fun _ => "") drafts "a" drafting.config)
    ⟨drafted, []⟩ [redraft [], redraft [.reentryCount 1]] := by
  refine reentries_limited rfl drafted ⟨trivial, ?_, trivial, ?_, trivial⟩
  · intro state k _ hstate hk
    have hdraft : drafting.config.state "draft" = some state := hstate
    cases hdraft
    cases hk
    decide
  · intro state k _ hstate hk
    have hdraft : drafting.config.state "draft" = some state := hstate
    cases hdraft
    cases hk
    decide +kernel

end Prodinamik.Runs
