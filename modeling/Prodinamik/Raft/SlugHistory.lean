import Prodinamik.Raft.DistributedStateMachine

namespace Prodinamik.Raft

namespace Command

/-- Whether the command leaves its slug with the object it had. -/
def inPlace (command : Command) : Bool :=
  command.type ≠ some "create" ∧ command.type ≠ some "archive"

def concerns (command : Command) (slug : String) : Bool :=
  truthy command.slug ∧ command.slug.getD "" = slug

def isCreate (command : Command) : Bool := command.type = some "create"

/-- Whether the command moves the version on. -/
def effective (command : Command) : Bool :=
  command.type = some "archive" ∨ command.type = some "transition" ∧ truthy command.toState

end Command

namespace SlugHistory

open Command

def ofSlug (commands : List Command) (slug : String) : List Command :=
  commands.filter fun command => command.concerns slug

/-- The value of a slug after the commands that concern it. -/
def run (state : Option NodeState) (commands : List Command) : Option NodeState :=
  commands.foldl (fun state command => some ((state.getD {}).after command)) state

/-- Two values of a slug that the commands lead to the same value. -/
def SameFrom (commands : List Command) (a b : Option NodeState) : Prop :=
  a = b ∨ commands.any isCreate = true ∨
    commands ≠ [] ∧ (a.getD {}).version = (b.getD {}).version ∧
      (commands.any effective = true ∨ (a.getD {}).currentState = (b.getD {}).currentState)

instance (commands : List Command) (a b : Option NodeState) :
    Decidable (SameFrom commands a b) :=
  inferInstanceAs (Decidable (_ ∨ _ ∨ _))

variable {command : Command} {commands : List Command}

theorem ofSlug_append (xs ys : List Command) (slug : String) :
    ofSlug (xs ++ ys) slug = ofSlug xs slug ++ ofSlug ys slug := List.filter_append _ _

theorem after_create (h : command.isCreate = true) (x y : NodeState) :
    x.after command = y.after command := by
  have htype : command.type = some "create" := by simpa [isCreate] using h
  simp [NodeState.after, htype]

theorem after_version (h : command.isCreate = false) (x : NodeState) :
    (x.after command).version = x.version + if command.effective then 1 else 0 := by
  have htype : command.type ≠ some "create" := by simpa [isCreate] using h
  rw [NodeState.after]
  by_cases htrans : command.type = some "transition"
  · rw [if_pos htrans]
    by_cases hto : truthy command.toState = true
    · simp [effective, htrans, hto]
    · simp [effective, htrans, hto]
  · rw [if_neg htrans, if_neg htype]
    by_cases harchive : command.type = some "archive"
    · simp [effective, harchive]
    · simp [effective, harchive, htrans]

theorem after_currentState (h : command.effective = true) (x y : NodeState) :
    (x.after command).currentState = (y.after command).currentState := by
  simp only [effective, Bool.decide_or, Bool.decide_and, Bool.decide_eq_true, Bool.or_eq_true,
    decide_eq_true_eq, Bool.and_eq_true] at h
  obtain harchive | ⟨htrans, hto⟩ := h
  · simp [NodeState.after, harchive]
  · simp [NodeState.after, htrans, hto]

theorem after_ineffective (h : command.isCreate = false) (he : command.effective = false)
    (x : NodeState) : x.after command = x := by
  have htype : command.type ≠ some "create" := by simpa [isCreate] using h
  simp only [effective, Bool.decide_or, Bool.decide_and, Bool.decide_eq_true, Bool.or_eq_false_iff,
    decide_eq_false_iff_not, Bool.and_eq_false_iff] at he
  rw [NodeState.after]
  by_cases htrans : command.type = some "transition"
  · have hto : truthy command.toState = false := he.2.resolve_left (not_not_intro htrans)
    rw [if_pos htrans, hto, if_neg Bool.false_ne_true]
  · rw [if_neg htrans, if_neg htype, if_neg he.1]

theorem foldl_after_version (h : commands.any isCreate = false) (x : NodeState) :
    (commands.foldl NodeState.after x).version = x.version + commands.countP effective := by
  induction commands generalizing x with
  | nil => simp
  | cons command commands ih =>
      rw [List.any_cons, Bool.or_eq_false_iff] at h
      rw [List.foldl_cons, ih h.2, after_version h.1, List.countP_cons]
      cases command.effective with
      | true => simp only [if_true]; omega
      | false => simp

theorem foldl_after_eq_iff (x y : NodeState) :
    commands.foldl NodeState.after x = commands.foldl NodeState.after y ↔
      commands.any isCreate = true ∨ x.version = y.version ∧
        (commands.any effective = true ∨ x.currentState = y.currentState) := by
  induction commands generalizing x y with
  | nil =>
      cases x
      cases y
      simp [and_comm]
  | cons command commands ih =>
      rw [List.foldl_cons, List.foldl_cons, ih, List.any_cons, List.any_cons]
      cases hc : command.isCreate with
      | true => simp [after_create hc x y]
      | false =>
          rw [after_version hc, after_version hc, Int.add_left_inj]
          cases he : command.effective with
          | true => simp [after_currentState he x y]
          | false => simp [after_ineffective hc he]

theorem run_some (x : NodeState) (commands : List Command) :
    run (some x) commands = some (commands.foldl NodeState.after x) := by
  induction commands generalizing x with
  | nil => rfl
  | cons command commands ih =>
      rw [run, List.foldl_cons, ← run]
      exact ih (x.after command)

theorem run_of_ne_nil (h : commands ≠ []) (a : Option NodeState) :
    run a commands = some (commands.foldl NodeState.after (a.getD {})) := by
  cases commands with
  | nil => exact absurd rfl h
  | cons command commands => exact run_some ((a.getD {}).after command) commands

theorem run_append (a : Option NodeState) (xs ys : List Command) :
    run a (xs ++ ys) = run (run a xs) ys := List.foldl_append

theorem run_eq_iff (a b : Option NodeState) :
    run a commands = run b commands ↔ SameFrom commands a b := by
  rw [SameFrom]
  by_cases hnil : commands = []
  · simp [hnil, run]
  · rw [run_of_ne_nil hnil, run_of_ne_nil hnil, Option.some.injEq, foldl_after_eq_iff]
    constructor
    · rintro (hcreate | hsame)
      · exact Or.inr (Or.inl hcreate)
      · exact Or.inr (Or.inr ⟨hnil, hsame⟩)
    · rintro (rfl | hcreate | ⟨-, hsame⟩)
      · exact Or.inr ⟨rfl, Or.inr rfl⟩
      · exact Or.inl hcreate
      · exact Or.inr hsame

theorem applyCommand_at (states : StateMap) (command : Command) (slug : String) :
    StateMap.applyCommand states command slug =
      if command.concerns slug then some (((states slug).getD {}).after command)
      else states slug := by
  rw [StateMap.applyCommand]
  by_cases htruthy : truthy command.slug = true
  · rw [if_pos htruthy]
    by_cases hs : command.slug.getD "" = slug
    · simp [concerns, htruthy, hs]
    · simp [concerns, hs, Ne.symm hs]
  · rw [if_neg htruthy, if_neg (by simp [concerns, htruthy])]

/-- A map of values develops slug by slug. -/
theorem foldl_applyCommand_at (states : StateMap) (commands : List Command) (slug : String) :
    commands.foldl StateMap.applyCommand states slug =
      run (states slug) (ofSlug commands slug) := by
  induction commands generalizing states with
  | nil => rfl
  | cons command commands ih =>
      rw [List.foldl_cons, ih, applyCommand_at, ofSlug, ofSlug]
      cases hc : command.concerns slug with
      | true =>
          rw [List.filter_cons_of_pos (by simp [hc]), if_pos rfl, run, run, List.foldl_cons]
      | false => rw [List.filter_cons_of_neg (by simp [hc]), if_neg Bool.false_ne_true]

/-- A run that is created once and then only moved on counts its commands. -/
theorem run_version (hcreate : command.isCreate = true) (hrest : commands.any isCreate = false)
    (heffective : ∀ c ∈ commands, c.effective = true) :
    ∃ state, run none (command :: commands) = some state ∧
      state.version = (command :: commands).length := by
  have htype : command.type = some "create" := by simpa [isCreate] using hcreate
  refine ⟨_, run_of_ne_nil (List.cons_ne_nil _ _) none, ?_⟩
  rw [List.foldl_cons, foldl_after_version hrest, List.countP_eq_length.mpr heffective]
  simp [NodeState.after, htype]
  omega

theorem foldl_after_ineffective (h : commands.any isCreate = false)
    (he : commands.any effective = false) (x : NodeState) :
    commands.foldl NodeState.after x = x := by
  induction commands generalizing x with
  | nil => rfl
  | cons command commands ih =>
      rw [List.any_cons, Bool.or_eq_false_iff] at h he
      rw [List.foldl_cons, after_ineffective h.1 he.1, ih h.2 he.2]

theorem sameFrom_getD (h : commands ≠ []) (a b : Option NodeState) :
    SameFrom commands a b ↔ SameFrom commands (some (a.getD {})) (some (b.getD {})) := by
  rw [← run_eq_iff, ← run_eq_iff, run_of_ne_nil h a, run_of_ne_nil h b, run_some, run_some]

/-- Commands that were carried out ahead of time are told by their versions. -/
theorem sameFrom_ahead {ahead : List Command}
    (h : ahead.any isCreate = true → commands.any isCreate = true) (x : NodeState) :
    SameFrom commands (some (ahead.foldl NodeState.after x)) (some x) ↔
      commands.any isCreate = true ∨ ahead.any effective = false := by
  cases hcreate : commands.any isCreate with
  | true => simp [SameFrom, hcreate]
  | false =>
      have hahead : ahead.any isCreate = false := by
        cases hany : ahead.any isCreate with
        | true => rw [h hany] at hcreate; cases hcreate
        | false => rfl
      have hversion := foldl_after_version hahead x
      rw [or_iff_right Bool.false_ne_true]
      constructor
      · intro hsame
        have heq : (ahead.foldl NodeState.after x).version = x.version := by
          obtain heq | hany | ⟨-, heq, -⟩ := hsame
          · rw [Option.some.inj heq]
          · rw [hany] at hcreate; cases hcreate
          · exact heq
        have hzero : ahead.countP effective = 0 := by omega
        rw [List.any_eq_false]
        exact fun c hc => List.countP_eq_zero.mp hzero c hc
      · intro he
        exact Or.inl (congrArg some (foldl_after_ineffective hahead he x))

end SlugHistory

end Prodinamik.Raft
