import Prodinamik.Lib.Run
import Prodinamik.Runs.Ledger

namespace Prodinamik.Runs

open Machine Lib.Run

/-- A call of update_state for one run. -/
structure UpdateCall where
  toState : String
  overrides : List Override := []
  now : DateTime
  walTime : DateTime

/-- The state that update_state reads from the metadata. -/
def currentState (d : Disk) (slug : String) : Option String :=
  match (d.active slug).map (Disk.readMeta slug) with
  | some (.ok (some m)) => some m.state
  | _ => none

/-- The disk and the transitions that were accepted, the last one at the end. -/
structure Trail where
  disk : Disk
  taken : List (String × String) := []

namespace Trail

variable (digest : WalEntry → String) (profile : ProductProfile) (slug : String)

def update (s : Trail) (c : UpdateCall) : Trail :=
  match updateState digest s.disk slug c.toState profile c.overrides c.now c.walTime,
      currentState s.disk slug with
  | .ok (writes, _), some fromState =>
      ⟨s.disk.performAll writes, s.taken ++ [(fromState, c.toState)]⟩
  | _, _ => s

end Trail

/-- The reentry_count that update_state validates with. -/
def givenReentries (overrides : List Override) : Int :=
  overrides.foldl (fun n o => match o with
    | .reentryCount value => value
    | _ => n) 0

theorem reentryCount_foldl (overrides : List Override) (rt : RuntimeState) :
    (overrides.foldl RuntimeState.override rt).reentryCount =
      overrides.foldl (fun n o => match o with
        | .reentryCount value => value
        | _ => n) rt.reentryCount := by
  induction overrides generalizing rt with
  | nil => rfl
  | cons o overrides ih =>
      rw [List.foldl_cons, List.foldl_cons, ih]
      cases o with
      | _ => rfl

/-- Either an update is rejected or the state machine has allowed the
transition from the state that was read. -/
theorem updateState_cases (digest : WalEntry → String) (d : Disk) (slug toState : String)
    {profile : ProductProfile} {sm : StateMachine} (hsm : profile.stateMachine = some sm)
    (overrides : List Override) (now walTime : DateTime) :
    (∃ e, updateState digest d slug toState profile overrides now walTime = .error e) ∨
      ∃ writes m fromState rt rt', updateState digest d slug toState profile overrides now walTime =
          .ok (writes, m) ∧ currentState d slug = some fromState ∧
        rt.reentryCount = givenReentries overrides ∧
        sm.canTransition fromState toState rt = .ok rt' := by
  rw [updateState]
  cases hdir : d.active slug with
  | none => exact Or.inl ⟨_, rfl⟩
  | some dir =>
      simp only
      cases hread : Disk.readMeta slug dir with
      | error e => exact Or.inl ⟨_, rfl⟩
      | ok stored =>
          cases stored with
          | none => exact Or.inl ⟨_, rfl⟩
          | some stored =>
              simp only
              cases hcheck : checkTransition profile stored.leaving toState overrides with
              | error e => exact Or.inl ⟨_, rfl⟩
              | ok _ =>
                  have hstate : stored.leaving.state = stored.state := by
                    rw [RunMeta.leaving]
                    split <;> rfl
                  rw [checkTransition, Option.bind_some, hsm] at hcheck
                  simp only at hcheck
                  split at hcheck
                  · cases hcheck
                  · rename_i rt' hcan
                    refine Or.inr ⟨_, _, stored.leaving.state, _, rt', rfl, ?_, ?_, hcan⟩
                    · rw [currentState, hdir, Option.map_some, hread, hstate]
                    · rw [reentryCount_foldl]
                      rfl

end Prodinamik.Runs
