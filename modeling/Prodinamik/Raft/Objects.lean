import Prodinamik.Raft.SlugHistory

namespace Prodinamik.Raft

/-- The NodeState objects of a process, and the references that the
state_machine dict of one node holds. -/
structure Objects where
  heap : Nat → NodeState
  next : Nat
  refs : String → Option Nat

namespace Objects

def lookup (o : Objects) (slug : String) : Option NodeState := (o.refs slug).map o.heap

def alloc (o : Objects) (slug : String) (state : NodeState) : Objects where
  heap := Function.update o.heap o.next state
  next := o.next + 1
  refs := Function.update o.refs slug (some o.next)

def ensure (o : Objects) (slug : String) : Objects :=
  if (o.refs slug).isSome then o else o.alloc slug {}

def mutate (o : Objects) (slug : String) (f : NodeState → NodeState) : Objects :=
  match o.refs slug with
  | some r => { o with heap := Function.update o.heap r (f (o.heap r)) }
  | none => o

/-- A transition writes to the object it finds; create and archive put a new
object in its place. -/
def applyCommand (o : Objects) (command : Command) : Objects :=
  if truthy command.slug then
    let slug := command.slug.getD ""
    let o := o.ensure slug
    if command.type = some "transition" then
      if truthy command.toState then
        o.mutate slug fun state => ⟨command.toState.getD "", state.version + 1⟩
      else o
    else if command.type = some "create" then o.alloc slug ⟨command.initialState.getD "start", 1⟩
    else if command.type = some "archive" then
      o.alloc slug ⟨"archived", ((o.lookup slug).getD {}).version + 1⟩
    else o
  else o

instance : StateStore Objects where
  applyCommand := applyCommand
  values := lookup

/-- Every reference of the dict is to an object of its own. -/
structure Separate (o : Objects) : Prop where
  valid : ∀ s r, o.refs s = some r → r < o.next
  injective : ∀ s t r, o.refs s = some r → o.refs t = some r → s = t

variable {o : Objects} {slug : String}

theorem alloc_lookup_self (o : Objects) (slug : String) (state : NodeState) :
    (o.alloc slug state).lookup slug = some state := by
  simp [alloc, lookup]

theorem alloc_lookup_other (h : Separate o) {s : String} (state : NodeState) (hs : s ≠ slug) :
    (o.alloc slug state).lookup s = o.lookup s := by
  simp only [alloc, lookup, Function.update_of_ne hs]
  cases hr : o.refs s with
  | none => rfl
  | some r =>
      have hlt := h.valid s r hr
      simp [show r ≠ o.next by omega]

theorem alloc_separate (h : Separate o) (slug : String) (state : NodeState) :
    Separate (o.alloc slug state) where
  valid := by
    intro s r hr
    simp only [alloc] at hr ⊢
    by_cases hs : s = slug
    · subst hs
      rw [Function.update_self] at hr
      cases hr
      omega
    · rw [Function.update_of_ne hs] at hr
      have := h.valid s r hr
      omega
  injective := by
    intro s t r hs ht
    simp only [alloc] at hs ht
    by_cases hss : s = slug
    · by_cases htt : t = slug
      · rw [hss, htt]
      · subst hss
        rw [Function.update_self] at hs
        rw [Function.update_of_ne htt] at ht
        cases hs
        have := h.valid t _ ht
        omega
    · rw [Function.update_of_ne hss] at hs
      by_cases htt : t = slug
      · subst htt
        rw [Function.update_self] at ht
        cases ht
        have := h.valid s _ hs
        omega
      · rw [Function.update_of_ne htt] at ht
        exact h.injective s t r hs ht

theorem ensure_separate (h : Separate o) (slug : String) : Separate (o.ensure slug) := by
  rw [ensure]
  split
  · exact h
  · exact alloc_separate h slug {}

theorem ensure_refs (o : Objects) (slug : String) : ∃ r, (o.ensure slug).refs slug = some r := by
  rw [ensure]
  split
  · rename_i hsome
    exact Option.isSome_iff_exists.mp hsome
  · exact ⟨o.next, by simp [alloc]⟩

theorem ensure_of_some {r : Nat} (h : o.refs slug = some r) : o.ensure slug = o := by
  rw [ensure, if_pos (by simp [h])]

theorem ensure_lookup (h : Separate o) (slug s : String) :
    (o.ensure slug).lookup s =
      if s = slug then some ((o.lookup slug).getD {}) else o.lookup s := by
  cases hr : o.refs slug with
  | some r =>
      rw [ensure_of_some hr]
      split
      · rename_i hs
        rw [hs, lookup, hr]
        rfl
      · rfl
  | none =>
      have halloc : o.ensure slug = o.alloc slug {} := by
        rw [ensure, if_neg (by simp [hr])]
      rw [halloc]
      split
      · rename_i hs
        rw [hs, alloc_lookup_self, lookup, hr]
        rfl
      · rename_i hs
        exact alloc_lookup_other h {} hs

theorem mutate_separate (h : Separate o) (slug : String) (f : NodeState → NodeState) :
    Separate (o.mutate slug f) := by
  rw [mutate]
  split
  · exact ⟨h.valid, h.injective⟩
  · exact h

theorem mutate_lookup (h : Separate o) (slug s : String) (f : NodeState → NodeState) :
    (o.mutate slug f).lookup s = if s = slug then (o.lookup slug).map f else o.lookup s := by
  rw [mutate]
  cases hr : o.refs slug with
  | none =>
      simp only
      split
      · rename_i hs
        rw [hs, lookup, hr]
        rfl
      · rfl
  | some r =>
      simp only
      split
      · rename_i hs
        rw [hs]
        simp [lookup, hr]
      · rename_i hs
        simp only [lookup]
        cases hs' : o.refs s with
        | none => rfl
        | some r' =>
            have hne : r' ≠ r := fun heq => hs (h.injective s slug r (heq ▸ hs') hr)
            simp [hne]

/-- The command as one write: to the object there is, or to a new one. -/
theorem applyCommand_eq (o : Objects) (command : Command) :
    o.applyCommand command =
      if truthy command.slug then
        let o := o.ensure (command.slug.getD "")
        if command.inPlace then o.mutate (command.slug.getD "") fun state => state.after command
        else o.alloc (command.slug.getD "")
          (((o.lookup (command.slug.getD "")).getD {}).after command)
      else o := by
  rw [applyCommand]
  by_cases hslug : truthy command.slug = true
  swap
  · rw [if_neg hslug, if_neg hslug]
  rw [if_pos hslug, if_pos hslug]
  obtain ⟨r, hr⟩ := ensure_refs o (command.slug.getD "")
  have hnone : ∀ f : NodeState → NodeState, (∀ state, f state = state) →
      (o.ensure (command.slug.getD "")).mutate (command.slug.getD "") f =
        o.ensure (command.slug.getD "") := by
    intro f hf
    rw [mutate, hr]
    simp only [hf, Function.update_eq_self]
  simp only
  by_cases htrans : command.type = some "transition"
  · have hplace : command.inPlace = true := by simp [Command.inPlace, htrans]
    have hafter : ∀ state : NodeState, state.after command =
        if truthy command.toState then ⟨command.toState.getD "", state.version + 1⟩ else state :=
      fun state => if_pos htrans
    rw [if_pos htrans, hplace, if_pos rfl]
    by_cases hto : truthy command.toState = true
    · simp only [hafter, hto, if_true]
    · rw [if_neg hto, hnone]
      intro state
      rw [hafter, if_neg hto]
  rw [if_neg htrans]
  by_cases hcreate : command.type = some "create"
  · have hplace : command.inPlace = false := by simp [Command.inPlace, hcreate]
    rw [if_pos hcreate, hplace, if_neg Bool.false_ne_true, NodeState.after, if_neg htrans,
      if_pos hcreate]
  rw [if_neg hcreate]
  by_cases harchive : command.type = some "archive"
  · have hplace : command.inPlace = false := by simp [Command.inPlace, harchive]
    rw [if_pos harchive, hplace, if_neg Bool.false_ne_true, NodeState.after, if_neg htrans,
      if_neg hcreate, if_pos harchive]
  · have hplace : command.inPlace = true := by simp [Command.inPlace, hcreate, harchive]
    rw [if_neg harchive, hplace, if_pos rfl, hnone]
    intro state
    rw [NodeState.after, if_neg htrans, if_neg hcreate, if_neg harchive]

theorem applyCommand_separate (h : Separate o) (command : Command) :
    Separate (o.applyCommand command) := by
  rw [applyCommand_eq]
  split
  · have he := ensure_separate h (command.slug.getD "")
    simp only
    split
    · exact mutate_separate he _ _
    · exact alloc_separate he _ _
  · exact h

/-- Objects of one's own behave like values. -/
theorem applyCommand_lookup (h : Separate o) (command : Command) :
    (o.applyCommand command).lookup = StateMap.applyCommand o.lookup command := by
  rw [applyCommand_eq, StateMap.applyCommand]
  by_cases hslug : truthy command.slug = true
  swap
  · rw [if_neg hslug, if_neg hslug]
  rw [if_pos hslug, if_pos hslug]
  have he := ensure_separate h (command.slug.getD "")
  funext s
  simp only
  by_cases hs : s = command.slug.getD ""
  · subst hs
    rw [Function.update_self]
    split
    · rw [mutate_lookup he, if_pos rfl, ensure_lookup h, if_pos rfl]
      rfl
    · rw [alloc_lookup_self, ensure_lookup h, if_pos rfl]
      rfl
  · rw [Function.update_of_ne hs]
    split
    · rw [mutate_lookup he, if_neg hs, ensure_lookup h, if_neg hs]
    · rw [alloc_lookup_other he _ hs, ensure_lookup h, if_neg hs]

theorem foldl_separate (h : Separate o) (commands : List Command) :
    Separate (commands.foldl applyCommand o) := by
  induction commands generalizing o with
  | nil => exact h
  | cons command commands ih => exact ih (applyCommand_separate h command)

theorem foldl_lookup (h : Separate o) (commands : List Command) :
    (commands.foldl applyCommand o).lookup = commands.foldl StateMap.applyCommand o.lookup := by
  induction commands generalizing o with
  | nil => rfl
  | cons command commands ih =>
      rw [List.foldl_cons, List.foldl_cons, ih (applyCommand_separate h command),
        applyCommand_lookup h]

/-- The objects of the process as another dict of it reaches them. -/
@[simps] def under (o : Objects) (refs : String → Option Nat) : Objects := { o with refs := refs }

/-- The other dict holds objects that exist, and shares one with this dict
only for the same slug. -/
structure Alongside (refs : String → Option Nat) (o : Objects) : Prop where
  valid : ∀ s r, refs s = some r → r < o.next
  slugwise : ∀ s t r, refs s = some r → o.refs t = some r → s = t

theorem ensure_next (o : Objects) (slug : String) : o.next ≤ (o.ensure slug).next := by
  rw [ensure]
  split
  · exact le_rfl
  · exact Nat.le_succ _

theorem ensure_refs_cases (o : Objects) (slug s : String) :
    (o.ensure slug).refs s = o.refs s ∨ ∃ r, (o.ensure slug).refs s = some r ∧ o.next ≤ r := by
  rw [ensure]
  split
  · exact Or.inl rfl
  · by_cases hs : s = slug
    · exact Or.inr ⟨o.next, by simp [alloc, hs], le_rfl⟩
    · exact Or.inl (by simp [alloc, hs])

theorem mutate_next (o : Objects) (slug : String) (f : NodeState → NodeState) :
    (o.mutate slug f).next = o.next := by
  rw [mutate]
  split <;> rfl

theorem mutate_refs (o : Objects) (slug : String) (f : NodeState → NodeState) :
    (o.mutate slug f).refs = o.refs := by
  rw [mutate]
  split <;> rfl

theorem applyCommand_next (o : Objects) (command : Command) :
    o.next ≤ (o.applyCommand command).next := by
  rw [applyCommand_eq]
  split
  · have he := ensure_next o (command.slug.getD "")
    simp only
    split
    · rw [mutate_next]
      exact he
    · exact Nat.le_succ_of_le he
  · exact le_rfl

/-- A reference that a command changes is to an object that was not there. -/
theorem applyCommand_refs (o : Objects) (command : Command) (s : String) :
    (o.applyCommand command).refs s = o.refs s ∨
      ∃ r, (o.applyCommand command).refs s = some r ∧ o.next ≤ r := by
  rw [applyCommand_eq]
  split
  swap
  · exact Or.inl rfl
  have hensure := ensure_refs_cases o (command.slug.getD "") s
  simp only
  split
  · rwa [mutate_refs]
  · by_cases hs : s = command.slug.getD ""
    · exact Or.inr ⟨(o.ensure (command.slug.getD "")).next, by simp [alloc, hs], ensure_next o _⟩
    · simpa [alloc, hs] using hensure

theorem applyCommand_refs_kept {r : Nat} (h : o.refs slug = some r) {command : Command}
    (hkeep : command.concerns slug = true → command.inPlace = true) :
    (o.applyCommand command).refs slug = some r := by
  rw [applyCommand_eq]
  split
  swap
  · exact h
  rename_i htruthy
  by_cases hs : command.slug.getD "" = slug
  · rw [hs, ensure_of_some h]
    simp only
    rw [if_pos (hkeep (by simp [Command.concerns, htruthy, hs])), mutate_refs]
    exact h
  · have he : (o.ensure (command.slug.getD "")).refs slug = some r := by
      rw [ensure]
      split
      · exact h
      · simpa [alloc, Ne.symm hs] using h
    simp only
    split
    · rwa [mutate_refs]
    · simpa [alloc, Ne.symm hs] using he

theorem applyCommand_refs_new {command : Command} (hslug : command.concerns slug = true)
    (hplace : command.inPlace = false) :
    ∃ r, (o.applyCommand command).refs slug = some r ∧ o.next ≤ r := by
  simp only [Command.concerns, Bool.decide_and, Bool.decide_eq_true, Bool.and_eq_true,
    decide_eq_true_eq] at hslug
  rw [applyCommand_eq, if_pos hslug.1, hplace, hslug.2]
  exact ⟨(o.ensure slug).next, by simp [alloc], ensure_next o slug⟩

theorem ensure_alongside {refs : String → Option Nat} (h : Alongside refs o) (slug : String) :
    Alongside refs (o.ensure slug) where
  valid := fun s r hr => lt_of_lt_of_le (h.valid s r hr) (ensure_next o slug)
  slugwise := by
    intro s t r hr ht
    obtain hold | ⟨r', hnew, hle⟩ := ensure_refs_cases o slug t
    · exact h.slugwise s t r hr (hold ▸ ht)
    · have hlt := h.valid s r hr
      rw [hnew] at ht
      cases ht
      omega

theorem mutate_alongside {refs : String → Option Nat} (h : Alongside refs o) (slug : String)
    (f : NodeState → NodeState) : Alongside refs (o.mutate slug f) where
  valid := by
    rw [mutate_next]
    exact h.valid
  slugwise := by
    rw [mutate_refs]
    exact h.slugwise

theorem applyCommand_alongside {refs : String → Option Nat} (h : Alongside refs o)
    (command : Command) : Alongside refs (o.applyCommand command) where
  valid := fun s r hr => lt_of_lt_of_le (h.valid s r hr) (applyCommand_next o command)
  slugwise := by
    intro s t r hr ht
    obtain hold | ⟨r', hnew, hle⟩ := applyCommand_refs o command t
    · exact h.slugwise s t r hr (hold ▸ ht)
    · have hlt := h.valid s r hr
      rw [hnew] at ht
      cases ht
      omega

theorem ensure_heap {r : Nat} (h : r < o.next) : (o.ensure slug).heap r = o.heap r := by
  rw [ensure]
  split
  · rfl
  · simp [alloc, show r ≠ o.next by omega]

theorem mutate_heap (o : Objects) (f : NodeState → NodeState) (r : Nat) :
    (o.mutate slug f).heap r = if o.refs slug = some r then f (o.heap r) else o.heap r := by
  rw [mutate]
  cases hr : o.refs slug with
  | none => simp
  | some r' =>
      by_cases heq : r = r'
      · simp [heq]
      · simp [heq, Ne.symm heq]

/-- What a command of one dict does to an object that another dict holds. -/
theorem applyCommand_under {refs : String → Option Nat} (h : Alongside refs o) (command : Command)
    (s : String) : ((o.applyCommand command).under refs).lookup s =
      ((o.under refs).lookup s).map fun state =>
        if refs s = o.refs s ∧ command.concerns s = true ∧ command.inPlace = true then
          state.after command
        else state := by
  rw [lookup, lookup, under_refs, under_refs]
  cases hr : refs s with
  | none => rfl
  | some r =>
      have hlt := h.valid s r hr
      have hlt' : r < (o.ensure (command.slug.getD "")).next := lt_of_lt_of_le hlt (ensure_next o _)
      simp only [Option.map_some, under_heap, Option.some.injEq]
      rw [applyCommand_eq]
      by_cases htruthy : truthy command.slug = true
      swap
      · have hc : ¬ command.concerns s = true := by simp [Command.concerns, htruthy]
        rw [if_neg htruthy, if_neg fun h => hc h.2.1]
      rw [if_pos htruthy]
      simp only
      by_cases hplace : command.inPlace = true
      swap
      · rw [if_neg hplace, if_neg fun hc => hplace hc.2.2]
        simp [alloc, Nat.ne_of_lt hlt', ensure_heap hlt]
      rw [if_pos hplace, mutate_heap, ensure_heap hlt]
      by_cases hs : command.slug.getD "" = s
      · have hiff : (o.ensure s).refs s = some r ↔ o.refs s = some r := by
          cases ho : o.refs s with
          | some r' => rw [ensure_of_some ho, ho]
          | none =>
              rw [ensure, if_neg (by simp [ho])]
              simp [alloc, Ne.symm (Nat.ne_of_lt hlt)]
        have hc : command.concerns s = true := by simp [Command.concerns, htruthy, hs]
        simp only [hs, hiff, hc, hplace, and_true, eq_comm]
      · have hc : ¬ command.concerns s = true := by simp [Command.concerns, hs]
        rw [if_neg (fun hboth : _ ∧ _ ∧ _ => hc hboth.2.1), if_neg]
        intro href
        apply hs
        obtain hold | ⟨r', hnew, hle⟩ :=
          ensure_refs_cases o (command.slug.getD "") (command.slug.getD "")
        · exact (h.slugwise s _ r hr (hold ▸ href)).symm
        · rw [hnew] at href
          cases href
          omega

theorem foldl_alongside {refs : String → Option Nat} (h : Alongside refs o)
    (commands : List Command) : Alongside refs (commands.foldl applyCommand o) := by
  induction commands generalizing o with
  | nil => exact h
  | cons command commands ih => exact ih (applyCommand_alongside h command)

/-- An object that another dict shares takes part in the slug's commands until
one of them puts a new object in its place. -/
theorem foldl_under {refs : String → Option Nat} (h : Alongside refs o) (commands : List Command)
    (s : String) : ((commands.foldl applyCommand o).under refs).lookup s =
      ((o.under refs).lookup s).map fun state =>
        if refs s = o.refs s then
          ((commands.filter fun command => command.concerns s).takeWhile Command.inPlace).foldl
            NodeState.after state
        else state := by
  induction commands generalizing o with
  | nil => simp
  | cons command commands ih =>
      rw [List.foldl_cons, ih (applyCommand_alongside h command), applyCommand_under h command s,
        Option.map_map]
      cases hr : refs s with
      | none => simp [lookup, hr]
      | some r =>
          congr 1
          funext state
          simp only [Function.comp_apply]
          by_cases hsame : o.refs s = some r
          swap
          · have hlater : ¬ some r = (o.applyCommand command).refs s := by
              intro heq
              obtain hold | ⟨r', hnew, hle⟩ := applyCommand_refs o command s
              · exact hsame (hold ▸ heq.symm)
              · have hlt := h.valid s r hr
                rw [hnew] at heq
                cases heq
                omega
            rw [if_neg hlater, if_neg (fun hc => hsame hc.1.symm), if_neg (Ne.symm hsame)]
          rw [hsame, if_pos rfl]
          by_cases hc : command.concerns s = true
          swap
          · rw [applyCommand_refs_kept hsame (fun h => absurd h hc), if_pos rfl,
              if_neg (fun h => hc h.2.1), List.filter_cons_of_neg (by simpa using hc)]
          rw [List.filter_cons_of_pos (by simpa using hc)]
          by_cases hplace : command.inPlace = true
          · rw [applyCommand_refs_kept hsame (fun _ => hplace), if_pos rfl,
              if_pos ⟨rfl, hc, hplace⟩, List.takeWhile_cons_of_pos hplace, List.foldl_cons]
          · obtain ⟨r', hnew, hle⟩ := applyCommand_refs_new (o := o) hc (by simpa using hplace)
            have hlt := h.valid s r hr
            rw [hnew, if_neg (by simp; omega), if_neg (fun h => hplace h.2.2),
              List.takeWhile_cons_of_neg hplace]
            rfl

end Objects

end Prodinamik.Raft
