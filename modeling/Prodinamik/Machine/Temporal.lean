import Prodinamik.Lib.Run
import Prodinamik.Machine.Monitor

namespace Prodinamik.Machine

open Lib.FiniteTrace Lib.Run LTLHistory

abbrev holds (c : List Char) (rt : RuntimeState) : Bool := Condition.evaluateSingleCondition c rt

namespace Formula

/-- A violation that stays. -/
def lost (trace : List RuntimeState) : Formula → Bool
  | .globally c => !trace.all (holds c)
  | .untilRule a b => !untilHolds (holds a) (holds b) trace
  | _ => false

/-- The finite-trace semantics: whether a rule is violated at a position, given
the positions before it. -/
def violated (trace : List RuntimeState) (rt : RuntimeState) : Formula → Bool
  | .globally c => lost (trace ++ [rt]) (.globally c)
  | .eventually _ => false
  | .next c => !trace.isEmpty && !holds c rt
  | .untilRule a b => lost (trace ++ [rt]) (.untilRule a b)
  | .plain c => !holds c rt

def isNext : Formula → Bool
  | .next _ => true
  | _ => false

def isGlobally : Formula → Bool
  | .globally _ => true
  | _ => false

/-- The position has nothing to note for the rule. -/
def skippable (trace : List RuntimeState) (rt : RuntimeState) : Formula → Bool
  | .globally c => holds c rt
  | .untilRule a b => trace.any (holds b) || (holds a rt && !holds b rt)
  | _ => true

theorem violated_of_lost {f : Formula} {trace : List RuntimeState} (h : f.lost trace = true)
    (rt : RuntimeState) : f.violated trace rt = true := by
  cases f with
  | globally c =>
      rw [lost, Bool.not_eq_true'] at h
      rw [violated, lost, List.all_append, h]
      rfl
  | untilRule a b =>
      rw [lost, Bool.not_eq_true'] at h
      rw [violated, lost, untilHolds_snoc, h]
      rfl
  | _ => cases h

end Formula

open Formula

/-- Different until rules have different keys. -/
def KeysApart (fs : List Formula) : Prop :=
  ∀ a b a' b', .untilRule a b ∈ fs → .untilRule a' b' ∈ fs → uKey a b = uKey a' b' → a = a' ∧ b = b'

/-- From the first violated rule of the list on. -/
def fromViolated (fs : List Formula) (trace : List RuntimeState) (rt : RuntimeState) :
    List Formula :=
  fs.dropWhile fun f => !f.violated trace rt

/-- The loop may end at the first of these rules: it latches, or the others have
nothing to note. -/
def MayEnd (trace : List RuntimeState) (rt : RuntimeState) : List Formula → Prop
  | .globally _ :: _ => True
  | .plain _ :: after => ∀ f ∈ after, f.isNext = false ∧ f.skippable trace rt = true
  | _ => False

instance decidableMayEnd (trace : List RuntimeState) (rt : RuntimeState) :
    DecidablePred (MayEnd trace rt)
  | .globally _ :: _ => inferInstanceAs (Decidable True)
  | .plain _ :: after =>
      inferInstanceAs (Decidable (∀ f ∈ after, f.isNext = false ∧ f.skippable trace rt = true))
  | .eventually _ :: _ => inferInstanceAs (Decidable False)
  | .next _ :: _ => inferInstanceAs (Decidable False)
  | .untilRule _ _ :: _ => inferInstanceAs (Decidable False)
  | [] => inferInstanceAs (Decidable False)

/-- A violation cuts the position short for no rule that had something to note:
none is violated, or a globally rule has been violated before, or the rules
could be skipped. -/
def NothingMissed (fs : List Formula) (trace : List RuntimeState) (rt : RuntimeState) : Prop :=
  (∀ f ∈ fs, f.violated trace rt = false) ∨
    (∃ f ∈ fs, f.isGlobally = true ∧ f.lost trace = true) ∨
    if ∃ f ∈ fs, f.isNext = true ∧ f.violated trace rt = true then
      ∀ f ∈ fs, f.skippable trace rt = true
    else MayEnd trace rt (fromViolated fs trace rt)

instance (fs : List Formula) (trace : List RuntimeState) (rt : RuntimeState) :
    Decidable (NothingMissed fs trace rt) := inferInstanceAs (Decidable (_ ∨ _ ∨ ite _ _ _))

/-- The history tells how the rules stand after the trace, and none is lost. -/
structure Accurate (fs : List Formula) (trace : List RuntimeState) (h : LTLHistory) : Prop where
  latched : ∀ c, .globally c ∈ fs → h.gEvaluations (gKey c) ≠ some false ∧ trace.all (holds c) = true
  pending : ∀ c, c ∈ h.xPending ↔ trace ≠ [] ∧ .next c ∈ fs
  waiting : ∀ a b, .untilRule a b ∈ fs → untilHolds (holds a) (holds b) trace = true ∧
    ((h.uStates (uKey a b)).getD .waiting = .satisfied ↔ trace.any (holds b) = true)

/-- The same in the middle of a position, after the rules that were done. -/
structure Midway (fs done : List Formula) (trace : List RuntimeState) (rt : RuntimeState)
    (h : LTLHistory) : Prop where
  latched : ∀ c, .globally c ∈ fs → h.gEvaluations (gKey c) ≠ some false
  pending : ∀ c, c ∈ h.xPending ↔ .next c ∈ done
  waiting : ∀ a b, .untilRule a b ∈ fs → ((h.uStates (uKey a b)).getD .waiting = .satisfied ↔
    trace.any (holds b) = true ∨ (.untilRule a b ∈ done ∧ holds b rt = true))

section Rule

variable {fs done : List Formula} {trace : List RuntimeState} {rt : RuntimeState} {h : LTLHistory}
  {current : String}

theorem getD_waiting_ne (u : Option UntilState) : u.getD .waiting = .waiting ↔
    ¬ u.getD .waiting = .satisfied := by
  cases u.getD .waiting <;> simp

theorem mem_snoc_of_ne {f g : Formula} (hne : g ≠ f) : g ∈ done ++ [f] ↔ g ∈ done := by
  rw [List.mem_append, List.mem_singleton]
  exact or_iff_left hne

/-- Rules that are neither next nor until change only the latches. -/
theorem Midway.snoc (hm : Midway fs done trace rt h) {f : Formula} (hnext : ∀ c, .next c ≠ f)
    (huntil : ∀ a b, .untilRule a b ≠ f) {h' : LTLHistory} (hx : h'.xPending = h.xPending)
    (hu : h'.uStates = h.uStates)
    (hg : ∀ c, .globally c ∈ fs → h'.gEvaluations (gKey c) ≠ some false) :
    Midway fs (done ++ [f]) trace rt h' := by
  refine ⟨hg, fun c => ?_, fun a b hab => ?_⟩
  · rw [hx, mem_snoc_of_ne (hnext c)]
    exact hm.pending c
  · rw [hu, mem_snoc_of_ne (huntil a b)]
    exact hm.waiting a b hab

theorem globally_ok {c : List Char} (hf : .globally c ∈ fs) (hm : Midway fs done trace rt h)
    (hc : holds c rt = true) : ∃ h', h.applyRule current rt (.globally c) = (h', none) ∧
      Midway fs (done ++ [.globally c]) trace rt h' := by
  have hlatched : ((h.gEvaluations (gKey c)).map fun old => old && holds c rt).getD
      (holds c rt) = true := by
    rw [hc]
    cases hg : h.gEvaluations (gKey c) with
    | none => rfl
    | some old =>
        cases old with
        | true => rfl
        | false => exact absurd hg (hm.latched c hf)
  refine ⟨{ h with gEvaluations := Function.update h.gEvaluations (gKey c) (some true) },
    by rw [applyRule]; simp only [hlatched]; rfl, hm.snoc (by simp) (by simp) rfl rfl ?_⟩
  intro c' hc'
  by_cases heq : gKey c' = gKey c
  · simp [heq]
  · simp only [Function.update_of_ne heq]
    exact hm.latched c' hc'

theorem next_ok (hm : Midway fs done trace rt h) (c : List Char) :
    Midway fs (done ++ [.next c]) trace rt { h with xPending := h.xPending ++ [c] } := by
  refine ⟨hm.latched, fun c' => ?_, fun a b hab => ?_⟩
  · simp only [List.mem_append, List.mem_singleton, hm.pending, Formula.next.injEq]
  · rw [mem_snoc_of_ne (by simp)]
    exact hm.waiting a b hab

theorem untilRule_ok (hkeys : KeysApart fs) {a b : List Char} (hf : .untilRule a b ∈ fs)
    (hm : Midway fs done trace rt h)
    (hv : (trace.any (holds b) || holds b rt || holds a rt) = true) :
    ∃ h', h.applyRule current rt (.untilRule a b) = (h', none) ∧
      Midway fs (done ++ [.untilRule a b]) trace rt h' := by
  have hkeep : (holds b rt = true → (h.uStates (uKey a b)).getD .waiting = .satisfied) →
      Midway fs (done ++ [.untilRule a b]) trace rt h := by
    intro hsat
    refine ⟨hm.latched, fun c => ?_, fun a' b' hab => ?_⟩
    · rw [mem_snoc_of_ne (by simp)]
      exact hm.pending c
    · rw [hm.waiting a' b' hab, List.mem_append, List.mem_singleton]
      constructor
      · rintro (h | ⟨hd, hb⟩)
        · exact Or.inl h
        · exact Or.inr ⟨Or.inl hd, hb⟩
      · rintro (h | ⟨hd | heq, hb⟩)
        · exact Or.inl h
        · exact Or.inr ⟨hd, hb⟩
        · cases heq
          exact (hm.waiting a b hf).mp (hsat hb)
  by_cases hwait : (h.uStates (uKey a b)).getD .waiting = .waiting
  · have hany : trace.any (holds b) = false := by
      by_contra hany
      rw [Bool.not_eq_false] at hany
      rw [getD_waiting_ne] at hwait
      exact hwait ((hm.waiting a b hf).mpr (Or.inl hany))
    by_cases hb : holds b rt = true
    · have hnew : Midway fs (done ++ [.untilRule a b]) trace rt
          { h with uStates := Function.update h.uStates (uKey a b) (some .satisfied) } := by
        refine ⟨hm.latched, fun c => ?_, fun a' b' hab => ?_⟩
        · rw [mem_snoc_of_ne (by simp)]
          exact hm.pending c
        · by_cases heq : uKey a' b' = uKey a b
          · obtain ⟨rfl, rfl⟩ := hkeys a' b' a b hab hf heq
            simp [hb]
          · have hne : Formula.untilRule a' b' ≠ .untilRule a b := by
              intro h
              cases h
              exact heq rfl
            simp only [Function.update_of_ne heq]
            rw [mem_snoc_of_ne hne]
            exact hm.waiting a' b' hab
      exact ⟨_, by rw [applyRule, if_pos hwait, if_pos hb], hnew⟩
    · rw [Bool.not_eq_true] at hb
      have ha : holds a rt = true := by simpa [hany, hb] using hv
      refine ⟨h, ?_, hkeep fun hb' => by rw [hb] at hb'; cases hb'⟩
      rw [applyRule, if_pos hwait, if_neg (Bool.eq_false_iff.mp hb), if_pos ha]
  · refine ⟨h, by rw [applyRule, if_neg hwait], hkeep fun _ => ?_⟩
    rw [getD_waiting_ne, not_not] at hwait
    exact hwait

/-- A rule that is not violated is noted and the loop goes on. -/
theorem applyRule_ok (hkeys : KeysApart fs) {f : Formula} (hf : f ∈ fs)
    (hm : Midway fs done trace rt h) (hv : f.violated trace rt = false) :
    ∃ h', h.applyRule current rt f = (h', none) ∧ Midway fs (done ++ [f]) trace rt h' := by
  cases f with
  | globally c =>
      rw [violated, lost, Bool.not_eq_false', List.all_append, Bool.and_eq_true] at hv
      exact globally_ok hf hm (by simpa using hv.2)
  | eventually c =>
      exact ⟨_, rfl, hm.snoc (by simp) (by simp) rfl rfl hm.latched⟩
  | next c => exact ⟨_, rfl, next_ok hm c⟩
  | untilRule a b =>
      rw [violated, lost, Bool.not_eq_false', untilHolds_snoc, Bool.and_eq_true] at hv
      exact untilRule_ok hkeys hf hm hv.2
  | plain c =>
      rw [violated, Bool.not_eq_false'] at hv
      exact ⟨h, by rw [applyRule, if_pos hv], hm.snoc (by simp) (by simp) rfl rfl hm.latched⟩

/-- A rule that is violated for the first time ends the loop. -/
theorem applyRule_violated {f : Formula} (hf : f ∈ fs)
    (hbase : f.lost trace = false) (hpending : ∀ c, f ≠ .next c)
    (hm : Midway fs done trace rt h) (hv : f.violated trace rt = true) :
    ∃ h' reason, h.applyRule current rt f = (h', some reason) ∧
      ((∃ c, f = .globally c ∧ h'.gEvaluations (gKey c) = some false) ∨
        ((∀ c, f ≠ .globally c) ∧ h' = h)) := by
  cases f with
  | globally c =>
      rw [lost, Bool.not_eq_false'] at hbase
      rw [violated, lost, Bool.not_eq_true', List.all_append, hbase, Bool.true_and] at hv
      have hc : holds c rt = false := by simpa using hv
      have hlatched : ((h.gEvaluations (gKey c)).map fun old => old && holds c rt).getD
          (holds c rt) = false := by
        rw [hc]
        cases h.gEvaluations (gKey c) with
        | none => rfl
        | some old => exact Bool.and_false old
      refine ⟨_, _, by rw [applyRule]; simp only [hlatched]; rfl, Or.inl ⟨c, rfl, ?_⟩⟩
      exact Function.update_self _ _ _
  | eventually c => cases hv
  | next c => exact absurd rfl (hpending c)
  | untilRule a b =>
      rw [lost, Bool.not_eq_false'] at hbase
      rw [violated, lost, Bool.not_eq_true', untilHolds_snoc, hbase, Bool.true_and,
        Bool.or_eq_false_iff, Bool.or_eq_false_iff] at hv
      obtain ⟨⟨hany, hb⟩, ha⟩ := hv
      have hwait : (h.uStates (uKey a b)).getD .waiting = .waiting := by
        rw [getD_waiting_ne, hm.waiting a b hf, hany, hb]
        simp
      exact ⟨h, _, by rw [applyRule, if_pos hwait, if_neg (Bool.eq_false_iff.mp hb),
        if_neg (Bool.eq_false_iff.mp ha)], Or.inr ⟨by simp, rfl⟩⟩
  | plain c =>
      rw [violated, Bool.not_eq_true'] at hv
      exact ⟨h, _, by rw [applyRule, if_neg (Bool.eq_false_iff.mp hv)],
        Or.inr ⟨by simp, rfl⟩⟩

variable (current rt) in
/-- A latched rule ends the loop, whatever else is in the list. -/
theorem applyRules_latched {c : List Char} :
    ∀ {rest : List Formula} {h : LTLHistory}, .globally c ∈ rest →
      h.gEvaluations (gKey c) = some false → ∃ h' reason,
        applyRules current rt h rest = (h', some reason) ∧ h'.gEvaluations (gKey c) = some false := by
  intro rest
  induction rest with
  | nil => intro h hc _; cases hc
  | cons f rest ih =>
      intro h hc hg
      have hkeep : (h.applyRule current rt f).1.gEvaluations (gKey c) = some false := by
        cases f with
        | globally c' =>
            by_cases heq : gKey c = gKey c'
            · rw [applyRule]
              simp only [← heq, hg, Function.update_self]
              rfl
            · rw [applyRule]
              simp only [Function.update_of_ne heq]
              exact hg
        | untilRule a b =>
            rw [applyRule]
            split
            · split
              · exact hg
              · split
                · exact hg
                · exact hg
            · exact hg
        | _ => exact hg
      rw [applyRules]
      cases hout : h.applyRule current rt f with
      | mk h' reason =>
          rw [hout] at hkeep
          cases reason with
          | some reason => exact ⟨h', reason, rfl, hkeep⟩
          | none =>
              obtain rfl | hmem := List.mem_cons.mp hc
              · rw [applyRule] at hout
                simp only [hg] at hout
                cases hout
              · exact ih hmem hkeep

variable (current) in
/-- The loop gets to the first violated rule. -/
theorem applyRules_cut (hkeys : KeysApart fs) (hbase : ∀ f ∈ fs, f.lost trace = false)
    (hnext : ∀ f ∈ fs, f.isNext = true → f.violated trace rt = false) {rest : List Formula}
    (hsplit : fs = done ++ rest) (hm : Midway fs done trace rt h) :
    (fromViolated rest trace rt = [] ∧ ∃ h', applyRules current rt h rest = (h', none) ∧
        Midway fs fs trace rt h') ∨
      ∃ f after h' reason, fromViolated rest trace rt = f :: after ∧
        applyRules current rt h rest = (h', some reason) ∧
        ((∃ c, f = .globally c ∧ h'.gEvaluations (gKey c) = some false) ∨
          ((∀ c, f ≠ .globally c) ∧ ∃ before, fs = before ++ f :: after ∧
            (∀ g ∈ before, g ∈ done ∨ g.violated trace rt = false) ∧
            Midway fs before trace rt h')) := by
  induction rest generalizing done h with
  | nil =>
      rw [List.append_nil] at hsplit
      exact Or.inl ⟨rfl, h, rfl, hsplit ▸ hm⟩
  | cons f rest ih =>
      have hf : f ∈ fs := by simp [hsplit]
      cases hv : f.violated trace rt with
      | false =>
          obtain ⟨h', happly, hm'⟩ := applyRule_ok hkeys hf hm hv
          have hdrop : fromViolated (f :: rest) trace rt = fromViolated rest trace rt := by
            rw [fromViolated, List.dropWhile_cons_of_pos (by rw [hv]; rfl)]
            rfl
          rw [hdrop, applyRules, happly]
          obtain h | ⟨g, after, h'', reason, hfrom, hrun, hcase⟩ :=
            ih (by rw [hsplit, List.append_assoc]; rfl) hm'
          · exact Or.inl h
          · refine Or.inr ⟨g, after, h'', reason, hfrom, hrun, ?_⟩
            obtain hg | ⟨hg, before, heq, hbefore, hm''⟩ := hcase
            · exact Or.inl hg
            · refine Or.inr ⟨hg, before, heq, fun g' hg' => ?_, hm''⟩
              obtain hdone | hok := hbefore g' hg'
              · rw [List.mem_append, List.mem_singleton] at hdone
                obtain hdone | rfl := hdone
                · exact Or.inl hdone
                · exact Or.inr hv
              · exact Or.inr hok
      | true =>
          have hplain : ∀ c, f ≠ .next c := by
            rintro c rfl
            rw [hnext _ hf rfl] at hv
            cases hv
          obtain ⟨h', reason, happly, hcase⟩ := applyRule_violated hf (hbase f hf) hplain hm hv
          have hdrop : fromViolated (f :: rest) trace rt = f :: rest := by
            rw [fromViolated, List.dropWhile_cons_of_neg (by rw [hv]; exact Bool.false_ne_true)]
          refine Or.inr ⟨f, rest, h', reason, hdrop, by rw [applyRules, happly], ?_⟩
          obtain hg | ⟨hg, rfl⟩ := hcase
          · exact Or.inl hg
          · exact Or.inr ⟨hg, done, hsplit, fun g hg' => Or.inl hg', hm⟩

theorem holds_of_not_violated {c : List Char} (h : (Formula.globally c).violated trace rt = false) :
    holds c rt = true := by
  rw [violated, lost, Bool.not_eq_false', List.all_append, Bool.and_eq_true] at h
  simpa using h.2

/-- After a position at which every rule was noted or could be skipped. -/
theorem accurate_of_midway (ha : Accurate fs trace h) {h' : LTLHistory}
    (hm : Midway fs done trace rt h') (hdone : ∀ f ∈ done, f ∈ fs)
    (hall : ∀ f ∈ fs, (f ∈ done ∧ f.violated trace rt = false) ∨
      (f.isNext = false ∧ f.skippable trace rt = true)) :
    Accurate fs (trace ++ [rt]) h' := by
  refine ⟨fun c hc => ⟨hm.latched c hc, ?_⟩, fun c => ?_, fun a b hab => ?_⟩
  · have hrt : holds c rt = true := by
      obtain ⟨-, hok⟩ | ⟨-, hskip⟩ := hall _ hc
      · exact holds_of_not_violated hok
      · exact hskip
    rw [List.all_append, (ha.latched c hc).2]
    simpa using hrt
  · rw [hm.pending c]
    refine ⟨fun hc => ⟨by simp, hdone _ hc⟩, fun hc => ?_⟩
    obtain ⟨hd, -⟩ | ⟨hnext, -⟩ := hall _ hc.2
    · exact hd
    · cases hnext
  · rw [hm.waiting a b hab, untilHolds_snoc, (ha.waiting a b hab).1, List.any_append,
      Bool.true_and]
    obtain ⟨hd, hok⟩ | ⟨-, hskip⟩ := hall _ hab
    · rw [violated, lost, Bool.not_eq_false', untilHolds_snoc, Bool.and_eq_true] at hok
      refine ⟨hok.2, ?_⟩
      simp [hd]
    · rw [skippable, Bool.or_eq_true, Bool.and_eq_true, Bool.not_eq_true'] at hskip
      obtain hany | ⟨ha', hb⟩ := hskip
      · simp [hany]
      · simp [ha', hb]

/-- After a position that a pending next rule has cut short. -/
theorem accurate_of_skipped (ha : Accurate fs trace h) (hne : trace ≠ [])
    (hall : ∀ f ∈ fs, f.skippable trace rt = true) : Accurate fs (trace ++ [rt]) h := by
  refine ⟨fun c hc => ⟨(ha.latched c hc).1, ?_⟩, fun c => ?_, fun a b hab => ?_⟩
  · have hrt : holds c rt = true := hall _ hc
    rw [List.all_append, (ha.latched c hc).2]
    simpa using hrt
  · rw [ha.pending c]
    simp [hne]
  · have hskip := hall _ hab
    rw [(ha.waiting a b hab).2, untilHolds_snoc, (ha.waiting a b hab).1, List.any_append,
      Bool.true_and]
    rw [skippable, Bool.or_eq_true, Bool.and_eq_true, Bool.not_eq_true'] at hskip
    obtain hany | ⟨ha', hb⟩ := hskip
    · simp [hany]
    · simp [ha', hb]

variable (current rt) in
theorem Accurate.snapshot (ha : Accurate fs trace h) : Accurate fs trace (h.snapshot current rt) :=
  ⟨ha.latched, ha.pending, ha.waiting⟩

theorem Accurate.start (ha : Accurate fs trace h) :
    Midway fs [] trace rt { h.snapshot current rt with xPending := [] } := by
  refine ⟨fun c hc => (ha.latched c hc).1, fun c => ?_, fun a b hab => ?_⟩
  · simp
  · rw [← (ha.waiting a b hab).2]
    simp [LTLHistory.snapshot]

theorem Accurate.not_lost (ha : Accurate fs trace h) {f : Formula} (hf : f ∈ fs) :
    f.lost trace = false := by
  cases f with
  | globally c => rw [lost, (ha.latched c hf).2]; rfl
  | untilRule a b => rw [lost, (ha.waiting a b hf).1]; rfl
  | _ => rfl

/-- The pending conditions are those of the next rules. -/
theorem Accurate.pending_iff (ha : Accurate fs trace h) :
    h.xPending.find? (fun c => !holds c rt) = none ↔
      ∀ f ∈ fs, f.isNext = true → f.violated trace rt = false := by
  rw [List.find?_eq_none]
  constructor
  · intro hp f hf hnext
    cases f with
    | next c =>
        cases htrace : trace with
        | nil => rfl
        | cons r rest =>
            have hc := hp c ((ha.pending c).mpr ⟨by simp [htrace], hf⟩)
            simpa [violated] using hc
    | _ => cases hnext
  · intro hall c hc
    obtain ⟨hne, hmem⟩ := (ha.pending c).mp hc
    have hv := hall _ hmem rfl
    rw [violated] at hv
    simpa [hne] using hv

end Rule

def formulas (rules : List LTLRule) : List Formula :=
  rules.map fun rule => Formula.ofExpression rule.expression

/-- The history dict together with the runtimes it has been called with. -/
structure Watch where
  history : LTLHistory := {}
  trace : List RuntimeState := []

def Watch.call (rules : List LTLRule) (w : Watch) (c : String × RuntimeState) : Watch where
  history := (evaluateLtlRules rules c.1 c.2 w.history).1
  trace := w.trace ++ [c.2]

def Watch.accepts (rules : List LTLRule) (w : Watch) (c : String × RuntimeState) : Prop :=
  (evaluateLtlRules rules c.1 c.2 w.history).2 = none

/-- The next call is accepted exactly when no rule is violated, and not at all
once a globally or an until rule is lost. -/
def Watch.Right (rules : List LTLRule) (w : Watch) : Prop :=
  ∀ c, (w.accepts rules c ↔ ∀ f ∈ formulas rules, f.violated w.trace c.2 = false) ∧
    ((∃ f ∈ formulas rules, f.lost w.trace = true) → ¬ w.accepts rules c)

/-- Either the history tells how the rules stand or all is lost. -/
def Watch.Faithful (rules : List LTLRule) (w : Watch) : Prop :=
  Accurate (formulas rules) w.trace w.history ∨
    ∃ c, .globally c ∈ formulas rules ∧ lost w.trace (.globally c) = true ∧
      w.history.gEvaluations (gKey c) = some false

section Calls

variable {rules : List LTLRule} {w : Watch} {current : String} {rt : RuntimeState}

theorem formulas_ne_nil {f : Formula} (h : f ∈ formulas rules) : rules.isEmpty = false := by
  cases rules with
  | nil => cases h
  | cons => rfl

variable (current rt) in
theorem evaluate_latched {c : List Char} (hc : .globally c ∈ formulas rules)
    (hg : w.history.gEvaluations (gKey c) = some false) :
    ¬ w.accepts rules (current, rt) ∧
      (w.call rules (current, rt)).history.gEvaluations (gKey c) = some false := by
  rw [Watch.accepts, Watch.call, evaluateLtlRules, formulas_ne_nil hc]
  simp only [Bool.false_eq_true, if_false]
  split
  · exact ⟨by simp, hg⟩
  · obtain ⟨h', reason, hrun, hg'⟩ := applyRules_latched rt current
      (h := { w.history.snapshot current rt with xPending := [] }) hc hg
    rw [formulas] at hrun
    rw [hrun]
    exact ⟨by simp, hg'⟩

theorem fromViolated_eq_nil {fs : List Formula} {trace : List RuntimeState} :
    fromViolated fs trace rt = [] ↔ ∀ f ∈ fs, f.violated trace rt = false := by
  rw [fromViolated, List.dropWhile_eq_nil_iff]
  simp

theorem fromViolated_head {fs after : List Formula} {trace : List RuntimeState} {f : Formula}
    (h : fromViolated fs trace rt = f :: after) : f ∈ fs ∧ f.violated trace rt = true := by
  constructor
  · exact (List.dropWhile_sublist _).subset (h ▸ List.mem_cons_self)
  · have hhead := List.head_dropWhile_not (fun f : Formula => !f.violated trace rt) (l := fs)
      (by rw [← fromViolated, h]; exact List.cons_ne_nil _ _)
    unfold fromViolated at h
    simpa only [h, List.head_cons, Bool.not_eq_false'] using hhead

/-- A call in which a next rule of the position before is violated. -/
theorem evaluate_pending (ha : Accurate (formulas rules) w.trace w.history) {f : Formula}
    (hf : f ∈ formulas rules) (hnext : f.isNext = true) (hv : f.violated w.trace rt = true) :
    ¬ w.accepts rules (current, rt) ∧
      (w.call rules (current, rt)).history = w.history.snapshot current rt := by
  rw [Watch.accepts, Watch.call, evaluateLtlRules, formulas_ne_nil hf]
  simp only [Bool.false_eq_true, if_false]
  split
  · exact ⟨by simp, rfl⟩
  · rename_i hnone
    have hok := (ha.snapshot rt current).pending_iff.mp hnone f hf hnext
    rw [hv] at hok
    cases hok

variable (current) in
/-- Any other call goes through the rules. -/
theorem evaluate_loop (ha : Accurate (formulas rules) w.trace w.history) {f : Formula}
    (hf : f ∈ formulas rules)
    (hnext : ∀ f ∈ formulas rules, f.isNext = true → f.violated w.trace rt = false) :
    evaluateLtlRules rules current rt w.history =
      applyRules current rt { w.history.snapshot current rt with xPending := [] }
        (formulas rules) := by
  have hnone := (ha.snapshot rt current).pending_iff.mpr hnext
  rw [evaluateLtlRules, formulas_ne_nil hf]
  simp only [Bool.false_eq_true, if_false]
  split
  · rename_i c hc
    rw [hnone] at hc
    cases hc
  · rfl

theorem right_of_accurate (hkeys : KeysApart (formulas rules))
    (ha : Accurate (formulas rules) w.trace w.history) : w.Right rules := by
  rintro ⟨current, rt⟩
  refine ⟨?_, ?_⟩
  · cases hrules : rules with
    | nil => exact iff_of_true rfl fun _ hf => absurd hf List.not_mem_nil
    | cons rule rest =>
        rw [← hrules]
        have hf : Formula.ofExpression rule.expression ∈ formulas rules := by simp [hrules, formulas]
        by_cases hp : ∃ f ∈ formulas rules, f.isNext = true ∧ f.violated w.trace rt = true
        · obtain ⟨f, hf, hnext, hv⟩ := hp
          refine iff_of_false (evaluate_pending ha hf hnext hv).1 fun hall => ?_
          rw [hall f hf] at hv
          cases hv
        · have hnext : ∀ f ∈ formulas rules, f.isNext = true → f.violated w.trace rt = false := by
            intro f hf hn
            by_contra hv
            exact hp ⟨f, hf, hn, Bool.not_eq_false _ ▸ hv⟩
          rw [Watch.accepts, evaluate_loop current ha hf hnext]
          obtain ⟨hnil, h', hrun, -⟩ | ⟨f, after, h', reason, hfrom, hrun, -⟩ :=
            applyRules_cut current hkeys (fun f hf => ha.not_lost hf) hnext
              (List.nil_append _).symm ha.start
          · rw [hrun]
            exact iff_of_true rfl (fromViolated_eq_nil.mp hnil)
          · rw [hrun]
            refine iff_of_false (by simp) fun hall => ?_
            obtain ⟨hmem, hv⟩ := fromViolated_head hfrom
            rw [hall f hmem] at hv
            cases hv
  · rintro ⟨f, hf, hlost⟩
    rw [ha.not_lost hf] at hlost
    cases hlost

theorem right_of_faithful (hkeys : KeysApart (formulas rules)) (h : w.Faithful rules) :
    w.Right rules := by
  obtain ha | ⟨c, hc, hlost, hg⟩ := h
  · exact right_of_accurate hkeys ha
  · rintro ⟨current, rt⟩
    have hreject := (evaluate_latched current rt hc hg).1
    refine ⟨iff_of_false hreject fun hall => ?_, fun _ => hreject⟩
    have hv := hall _ hc
    rw [violated_of_lost hlost rt] at hv
    cases hv

theorem lost_snoc {c : List Char} {trace : List RuntimeState} (h : lost trace (.globally c) = true)
    (rt : RuntimeState) : lost (trace ++ [rt]) (.globally c) = true := violated_of_lost h rt

theorem faithful_call (hkeys : KeysApart (formulas rules)) (h : w.Faithful rules)
    (hmissed : NothingMissed (formulas rules) w.trace rt) :
    (w.call rules (current, rt)).Faithful rules := by
  obtain ha | ⟨c, hc, hlost, hg⟩ := h
  · cases hrules : rules with
    | nil =>
        left
        refine ⟨fun _ h => absurd h List.not_mem_nil, fun c => ?_, fun _ _ h => absurd h List.not_mem_nil⟩
        rw [hrules] at ha
        have hpending := (ha.pending c).not.mpr (fun h => absurd h.2 List.not_mem_nil)
        exact iff_of_false hpending fun h => absurd h.2 List.not_mem_nil
    | cons rule rest =>
        rw [← hrules]
        have hf : Formula.ofExpression rule.expression ∈ formulas rules := by simp [hrules, formulas]
        by_cases hp : ∃ f ∈ formulas rules, f.isNext = true ∧ f.violated w.trace rt = true
        · obtain ⟨f, hf, hnext, hv⟩ := hp
          have hne : w.trace ≠ [] := by
            intro hnil
            cases f with
            | next c => rw [violated, hnil] at hv; cases hv
            | _ => cases hnext
          have hskip : ∀ g ∈ formulas rules, g.skippable w.trace rt = true := by
            obtain hall | ⟨g, hg, -, hlost⟩ | hif := hmissed
            · rw [hall f hf] at hv
              cases hv
            · rw [ha.not_lost hg] at hlost
              cases hlost
            · rwa [if_pos ⟨f, hf, hnext, hv⟩] at hif
          left
          rw [(evaluate_pending ha hf hnext hv).2]
          exact accurate_of_skipped (ha.snapshot rt current) hne hskip
        · have hnext : ∀ f ∈ formulas rules, f.isNext = true → f.violated w.trace rt = false := by
            intro f hf hn
            by_contra hv
            exact hp ⟨f, hf, hn, Bool.not_eq_false _ ▸ hv⟩
          have hloop := evaluate_loop current ha hf hnext
          obtain ⟨hnil, h', hrun, hm⟩ | ⟨f, after, h', reason, hfrom, hrun, hcase⟩ :=
            applyRules_cut current hkeys (fun f hf => ha.not_lost hf) hnext
              (List.nil_append _).symm ha.start
          · have hhistory : (w.call rules (current, rt)).history = h' := by
              rw [Watch.call, hloop, hrun]
            left
            rw [hhistory]
            exact accurate_of_midway ha hm (fun _ h => h) fun f hf =>
              Or.inl ⟨hf, fromViolated_eq_nil.mp hnil f hf⟩
          · have hhistory : (w.call rules (current, rt)).history = h' := by
              rw [Watch.call, hloop, hrun]
            obtain ⟨hmem, hv⟩ := fromViolated_head hfrom
            obtain ⟨c, rfl, hg⟩ | ⟨hnot, before, hsplit, hbefore, hm⟩ := hcase
            · exact Or.inr ⟨c, hmem, hv, by rw [hhistory]; exact hg⟩
            · have hafter : f.isNext = false ∧ f.skippable w.trace rt = true ∧
                  ∀ g ∈ after, g.isNext = false ∧ g.skippable w.trace rt = true := by
                obtain hall | ⟨g, hg, -, hlost⟩ | hif := hmissed
                · rw [hall f hmem] at hv
                  cases hv
                · rw [ha.not_lost hg] at hlost
                  cases hlost
                · rw [if_neg hp, hfrom] at hif
                  cases f with
                  | globally c => exact absurd rfl (hnot c)
                  | plain c => exact ⟨rfl, rfl, hif⟩
                  | _ => exact hif.elim
              left
              rw [hhistory]
              refine accurate_of_midway ha hm (fun g hg => hsplit ▸ List.mem_append_left _ hg) ?_
              intro g hg
              rw [hsplit, List.mem_append, List.mem_cons] at hg
              obtain hg | rfl | hg := hg
              · refine Or.inl ⟨hg, ?_⟩
                obtain hdone | hok := hbefore g hg
                · cases hdone
                · exact hok
              · exact Or.inr ⟨hafter.1, hafter.2.1⟩
              · exact Or.inr (hafter.2.2 g hg)
  · exact Or.inr ⟨c, hc, lost_snoc hlost rt, (evaluate_latched current rt hc hg).2⟩

end Calls

/-- The monitor agrees with the finite-trace semantics as long as no violation
cuts a position short that another rule needs. -/
theorem monitor_right {rules : List LTLRule} (hkeys : KeysApart (formulas rules))
    {calls : List (String × RuntimeState)}
    (hmissed : Steps (Watch.call rules) (fun w c => NothingMissed (formulas rules) w.trace c.2) {}
      calls) : Always (Watch.call rules) (Watch.Right rules) {} calls := by
  refine Along.imp (fun _ h => right_of_faithful hkeys h) (fun _ _ _ => trivial)
    (along_of_invariant (fun w c h hc => faithful_call hkeys h hc) ?_ hmissed)
  refine Or.inl ⟨fun c _ => ⟨by simp, rfl⟩, fun c => by simp, fun a b _ => ⟨rfl, by simp⟩⟩

/-- Approval has to be there until the run is unblocked. -/
def approvedUntilUnblocked : List LTLRule := [⟨"human_approved U manual_unblock"⟩]

def unapproved : RuntimeState := { currentState := "review" }

def unblocked : RuntimeState := { currentState := "review", manualUnblock := true }

/-- The first call is rejected and the next one is not. -/
theorem not_monitor_right : ¬ ∀ (rules : List LTLRule) (calls : List (String × RuntimeState)),
    Always (Watch.call rules) (Watch.Right rules) {} calls := by
  intro h
  have hnext := (h approvedUntilUnblocked [("review", unapproved)]).2.2 ("review", unblocked)
  refine hnext.2 ?_ ?_
  · decide +kernel
  · rw [Watch.accepts]
    decide +kernel

def driftRules : List LTLRule := [⟨"G(drift_count < 3)"⟩, ⟨"X(human_approved)"⟩]

def drifting : List (String × RuntimeState) :=
  [("draft", { currentState := "draft" }),
    ("draft", { currentState := "draft", driftCount := 3, humanApproved := true }),
    ("draft", { currentState := "draft" })]

/-- The drift rule is violated at the second call, so the third is rejected too. -/
theorem monitor_right_drifting :
    Always (Watch.call driftRules) (Watch.Right driftRules) {} drifting := by
  have hformulas : formulas driftRules =
      [.globally "drift_count < 3".toList, .next "human_approved".toList] := by
    decide +kernel
  refine monitor_right ?_ ?_
  · intro a b a' b' hab
    rw [hformulas] at hab
    simp at hab
  · decide +kernel

end Prodinamik.Machine
