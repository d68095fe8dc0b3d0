import Mathlib.Data.Rat.Defs
import Mathlib.Logic.Function.Basic
import Mathlib.Data.List.Nodup
import Prodinamik.Lib.Run

namespace Prodinamik.Llm

open Lib.Run

structure LLMUsageStats where
  totalPromptTokens : Int := 0
  totalCompletionTokens : Int := 0
  totalCalls : Nat := 0
  failedCalls : Nat := 0
  lastCall : Option Rat := none
  lastError : Option String := none
  deriving DecidableEq, Repr

/-- What _track_success finds in a result; the texts are those of the errors it runs into. -/
inductive Usage
  | tokens (prompt completion : Int)
  /-- A result without a get. -/
  | noResult (error : String)
  /-- A usage without a get, or prompt tokens that cannot be added. -/
  | noPrompt (error : String)
  | noCompletion (prompt : Int) (error : String)
  deriving DecidableEq

inductive Outcome (ρ : Type)
  | returns (result : ρ) (usage : Usage)
  | raises (error : String)

/-- The providers in the order of their registration; one of them is the default. -/
structure LLMProviderRegistry where
  providers : List String := []
  default : Option String := none
  usage : String → Option LLMUsageStats := fun _ => none
  nodup : providers.Nodup := by simp
  default_mem : ∀ pid, default = some pid → pid ∈ providers := by simp
  default_none : default = none → providers = [] := by simp

structure Call (ρ : Type) where
  provider : Option String := none
  fallback : Bool := true
  outcome : String → Outcome ρ
  now : Rat := 0

structure Completed (ρ : Type) where
  answer : Except String ρ
  tried : List String
  registry : LLMProviderRegistry

variable {ρ : Type}

/-- The provider that is given; an empty id is none. -/
def Call.given (call : Call ρ) : Option String := call.provider.filter fun pid => pid ≠ ""

def Call.candidates (call : Call ρ) (s : LLMProviderRegistry) : List String :=
  match call.given with
  | some pid => [pid]
  | none => s.providers

namespace LLMProviderRegistry

def register (s : LLMProviderRegistry) (pid : String) (default : Bool) : LLMProviderRegistry where
  providers := if pid ∈ s.providers then s.providers else s.providers ++ [pid]
  default := if default ∨ s.default = none then some pid else s.default
  usage := Function.update s.usage pid (some {})
  nodup := by
    split
    case isTrue => exact s.nodup
    case isFalse hnew =>
      exact s.nodup.append (List.nodup_singleton pid) (List.disjoint_singleton.mpr hnew)
  default_mem := by
    intro q hq
    have hpid : pid ∈ if pid ∈ s.providers then s.providers else s.providers ++ [pid] := by
      split
      case isTrue hmem => exact hmem
      case isFalse => exact List.mem_append_right _ (List.mem_singleton_self pid)
    split at hq
    case isTrue =>
      cases hq
      exact hpid
    case isFalse =>
      have hmem := s.default_mem q hq
      split
      · exact hmem
      · exact List.mem_append_left _ hmem
  default_none := by
    intro hnone
    split at hnone
    case isTrue => cases hnone
    case isFalse hsome => exact absurd (.inr hnone) hsome

def unregister (s : LLMProviderRegistry) (pid : String) : LLMProviderRegistry where
  providers := s.providers.erase pid
  default := if s.default = some pid then (s.providers.erase pid).head? else s.default
  usage := Function.update s.usage pid none
  nodup := s.nodup.erase pid
  default_mem := by
    intro q hq
    split at hq
    case isTrue => exact List.mem_of_head? hq
    case isFalse hother =>
      refine (List.mem_erase_of_ne fun heq => hother ?_).mpr (s.default_mem q hq)
      rw [hq, heq]
  default_none := by
    intro hnone
    split at hnone
    case isTrue => exact List.head?_eq_none_iff.mp hnone
    case isFalse => rw [s.default_none hnone, List.erase_nil]

/-- The setter of the default refuses an id that is not registered. -/
def setDefault (s : LLMProviderRegistry) (pid : String) : Option LLMProviderRegistry :=
  if h : pid ∈ s.providers then
    some
      { s with
        default := some pid
        default_mem := fun q hq => Option.some.inj hq ▸ h
        default_none := fun hnone => by cases hnone }
  else none

def updateUsage (s : LLMProviderRegistry) (pid : String) (f : LLMUsageStats → LLMUsageStats) :
    LLMProviderRegistry :=
  { s with usage := Function.update s.usage pid (some (f ((s.usage pid).getD {}))) }

/-- The call is counted before its tokens are looked at. -/
def trackSuccess (s : LLMProviderRegistry) (pid : String) (usage : Usage) (now : Rat) :
    Option String × LLMProviderRegistry :=
  match usage with
  | .noResult error => (some error, s)
  | .noPrompt error =>
      (some error, s.updateUsage pid fun u => { u with totalCalls := u.totalCalls + 1 })
  | .noCompletion prompt error =>
      (some error, s.updateUsage pid fun u =>
        { u with
          totalCalls := u.totalCalls + 1
          totalPromptTokens := u.totalPromptTokens + prompt })
  | .tokens prompt completion =>
      (none, s.updateUsage pid fun u =>
        { u with
          totalCalls := u.totalCalls + 1
          totalPromptTokens := u.totalPromptTokens + prompt
          totalCompletionTokens := u.totalCompletionTokens + completion
          lastCall := some now })

def trackFailure (s : LLMProviderRegistry) (pid : String) (error : String) (now : Rat) :
    LLMProviderRegistry :=
  s.updateUsage pid fun u =>
    { u with failedCalls := u.failedCalls + 1, lastError := some error, lastCall := some now }

/-- The protected block: an error of _track_success is an error of the provider. -/
def attempt (s : LLMProviderRegistry) (call : Call ρ) (pid : String) :
    Except String ρ × LLMProviderRegistry :=
  match call.outcome pid with
  | .returns result usage =>
      match s.trackSuccess pid usage call.now with
      | (none, s) => (.ok result, s)
      | (some error, s) => (.error error, s.trackFailure pid error call.now)
  | .raises error => (.error error, s.trackFailure pid error call.now)

def tryProviders (call : Call ρ) :
    List String → LLMProviderRegistry → List String → Completed ρ
  | [], s, errors => ⟨.error ("All LLM providers failed: " ++ "; ".intercalate errors), [], s⟩
  | pid :: rest, s, errors =>
      if pid ∈ s.providers then
        match s.attempt call pid with
        | (.ok result, s) => ⟨.ok result, [pid], s⟩
        | (.error error, s) =>
            if call.fallback then
              let c := tryProviders call rest s (errors ++ [pid ++ ": " ++ error])
              { c with tried := pid :: c.tried }
            else ⟨.error error, [pid], s⟩
      else tryProviders call rest s errors


def complete (s : LLMProviderRegistry) (call : Call ρ) : Completed ρ :=
  tryProviders call (call.candidates s) s []

end LLMProviderRegistry

/-! Where a call is to go. -/

/-- The given provider or the default, then the others in the order of their registration. -/
def Call.order (call : Call ρ) (s : LLMProviderRegistry) : List String :=
  let first := call.given.or s.default
  (first.toList.filter fun pid => pid ∈ s.providers) ++
    if call.fallback then s.providers.filter fun pid => first ≠ some pid else []

/-- The providers up to the first that answers, and its result. -/
def firstAnswer (outcome : String → Outcome ρ) : List String → List String × Option ρ
  | [] => ([], none)
  | pid :: rest =>
      match outcome pid with
      | .returns result _ => ([pid], some result)
      | .raises _ => (pid :: (firstAnswer outcome rest).1, (firstAnswer outcome rest).2)

def Routed (s : LLMProviderRegistry) (call : Call ρ) : Prop :=
  ((s.complete call).tried, (s.complete call).answer.toOption) =
    firstAnswer call.outcome (call.order s)

def Usage.Readable : Usage → Prop
  | tokens _ _ => True
  | noResult _ | noPrompt _ | noCompletion _ _ => False

def Outcome.Readable : Outcome ρ → Prop
  | returns _ usage => usage.Readable
  | raises _ => True

def Outcome.Returns : Outcome ρ → Prop
  | returns _ _ => True
  | raises _ => False

/-- A provider that is given answers or has no other to fall back to; the default is the first one
that was registered; no result is unreadable. -/
structure Fits (s : LLMProviderRegistry) (call : Call ρ) : Prop where
  readable : ∀ pid ∈ (firstAnswer call.outcome (call.order s)).1, (call.outcome pid).Readable
  alone : ∀ pid, call.given = some pid → (pid ∈ s.providers ∧ (call.outcome pid).Returns) ∨
    call.fallback = false ∨ s.providers.filter (fun q => q ≠ pid) = []
  first : call.given = none → s.default = s.providers.head?

/-! What the code does with the providers it reaches. -/

/-- The candidates that are called, as long as they fail. -/
def Call.reached (call : Call ρ) (s : LLMProviderRegistry) : List String :=
  let registered := (call.candidates s).filter fun pid => pid ∈ s.providers
  if call.fallback then registered else registered.take 1

/-- The providers up to the first with a readable result, and that result. -/
def firstReadable (outcome : String → Outcome ρ) : List String → List String × Option ρ
  | [] => ([], none)
  | pid :: rest =>
      match outcome pid with
      | .returns result (.tokens _ _) => ([pid], some result)
      | _ => (pid :: (firstReadable outcome rest).1, (firstReadable outcome rest).2)

variable {s : LLMProviderRegistry} {call : Call ρ} {outcome : String → Outcome ρ} {pid : String}
  {rest : List String}

/-- The providers are tried one by one, until there is an answer. -/
inductive Attempts (call : Call ρ) :
    List String → LLMProviderRegistry → List String → Option ρ → LLMProviderRegistry → Prop
  | none {s : LLMProviderRegistry} : Attempts call [] s [] none s
  | answers {s : LLMProviderRegistry} {pid : String} {rest : List String} {result : ρ}
      (h : (s.attempt call pid).1 = .ok result) :
      Attempts call (pid :: rest) s [pid] (some result) (s.attempt call pid).2
  | fails {s s' : LLMProviderRegistry} {pid : String} {rest tried : List String} {answer : Option ρ}
      {error : String} (h : (s.attempt call pid).1 = .error error)
      (hrest : Attempts call rest (s.attempt call pid).2 tried answer s') :
      Attempts call (pid :: rest) s (pid :: tried) answer s'

@[simp] theorem providers_updateUsage {f : LLMUsageStats → LLMUsageStats} :
    (s.updateUsage pid f).providers = s.providers := rfl

@[simp] theorem providers_attempt : (s.attempt call pid).2.providers = s.providers := by
  rw [LLMProviderRegistry.attempt]
  cases call.outcome pid with
  | raises error => rfl
  | returns result usage =>
      cases usage with
      | tokens | noResult | noPrompt | noCompletion => rfl

theorem attempts_tryProviders (pids : List String) (s : LLMProviderRegistry)
    (errors : List String) :
    Attempts call
      (if call.fallback then pids.filter fun pid => pid ∈ s.providers
        else (pids.filter fun pid => pid ∈ s.providers).take 1) s
      (s.tryProviders call pids errors).tried (s.tryProviders call pids errors).answer.toOption
      (s.tryProviders call pids errors).registry := by
  induction pids generalizing s errors with
  | nil =>
      rw [LLMProviderRegistry.tryProviders, List.filter_nil, List.take_nil, ite_self]
      exact .none
  | cons pid rest ih =>
      rw [LLMProviderRegistry.tryProviders]
      by_cases hmem : pid ∈ s.providers
      · rw [if_pos hmem, List.filter_cons, if_pos (decide_eq_true hmem), List.take_succ_cons,
          List.take_zero]
        have hproviders := @providers_attempt ρ s call pid
        cases hattempt : s.attempt call pid with
        | mk answer s' =>
            rw [hattempt] at hproviders
            have hfst : (s.attempt call pid).1 = answer := by rw [hattempt]
            have hsnd : (s.attempt call pid).2 = s' := by rw [hattempt]
            cases answer with
            | ok result =>
                dsimp only
                split
                · exact hsnd ▸ .answers hfst
                · exact hsnd ▸ .answers hfst
            | error error =>
                dsimp only
                by_cases hfallback : call.fallback = true
                · rw [if_pos hfallback, if_pos hfallback]
                  have hrest := ih s' (errors ++ [pid ++ ": " ++ error])
                  rw [if_pos hfallback, hproviders] at hrest
                  exact .fails hfst (hsnd ▸ hrest)
                · rw [if_neg hfallback, if_neg hfallback]
                  exact .fails hfst (hsnd ▸ .none)
      · have hskip : ¬decide (pid ∈ s.providers) = true := by simpa using hmem
        rw [if_neg hmem, List.filter_cons, if_neg hskip]
        exact ih s errors

theorem attempts_complete (s : LLMProviderRegistry) (call : Call ρ) :
    Attempts call (call.reached s) s (s.complete call).tried (s.complete call).answer.toOption
      (s.complete call).registry := attempts_tryProviders (call.candidates s) s []

/-- A provider answers with a readable result, or counts as failed. -/
theorem attempt_cases (s : LLMProviderRegistry) (call : Call ρ) (pid : String) :
    (∃ result prompt completion, call.outcome pid = .returns result (.tokens prompt completion) ∧
      (s.attempt call pid).1 = .ok result) ∨
    ((call.outcome pid).Readable → ¬(call.outcome pid).Returns) ∧
      (∃ error, (s.attempt call pid).1 = .error error) ∧
      firstReadable call.outcome (pid :: rest) =
        (pid :: (firstReadable call.outcome rest).1, (firstReadable call.outcome rest).2) := by
  rw [LLMProviderRegistry.attempt, firstReadable]
  cases call.outcome pid with
  | raises error => exact .inr ⟨fun _ => id, ⟨error, rfl⟩, rfl⟩
  | returns result usage =>
      cases usage with
      | tokens prompt completion => exact .inl ⟨result, prompt, completion, rfl, rfl⟩
      | noResult error | noPrompt error | noCompletion prompt error =>
          exact .inr ⟨fun hread => hread.elim, ⟨error, rfl⟩, rfl⟩

/-- Which providers are tried does not depend on the statistics. -/
theorem Attempts.eq_firstReadable {pids tried : List String} {answer : Option ρ}
    {s' : LLMProviderRegistry} (h : Attempts call pids s tried answer s') :
    (tried, answer) = firstReadable call.outcome pids := by
  induction h with
  | none => rfl
  | @answers s pid rest result h =>
      rcases @attempt_cases ρ rest s call pid with
        ⟨result', prompt, completion, houtcome, hanswer⟩ | ⟨-, ⟨error, herror⟩, -⟩
      · rw [h] at hanswer
        cases hanswer
        rw [firstReadable, houtcome]
      · rw [h] at herror
        cases herror
  | @fails s s' pid rest tried answer error h hrest ih =>
      rcases @attempt_cases ρ rest s call pid with
        ⟨result', prompt, completion, -, hanswer⟩ | ⟨-, -, hfirst⟩
      · rw [h] at hanswer
        cases hanswer
      · rw [hfirst, ← ih]

theorem complete_eq (s : LLMProviderRegistry) (call : Call ρ) :
    ((s.complete call).tried, (s.complete call).answer.toOption) =
      firstReadable call.outcome (call.reached s) := (attempts_complete s call).eq_firstReadable

theorem firstAnswer_of_nil {pids : List String} (h : (firstAnswer outcome pids).1 = []) :
    pids = [] := by
  cases pids with
  | nil => rfl
  | cons pid rest =>
      rw [firstAnswer] at h
      cases houtcome : outcome pid with
      | returns | raises =>
          rw [houtcome] at h
          cases h

theorem firstReadable_snd_of_nil {pids : List String} (h : (firstReadable outcome pids).1 = []) :
    (firstReadable outcome pids).2 = none := by
  cases pids with
  | nil => rfl
  | cons pid rest =>
      rw [firstReadable] at h
      cases houtcome : outcome pid with
      | raises error =>
          rw [houtcome] at h
          cases h
      | returns result usage =>
          rw [houtcome] at h
          cases usage with
          | tokens | noResult | noPrompt | noCompletion => cases h

/-- Of the same providers the code finds the first answer just where no unreadable result is met
before. -/
theorem firstReadable_eq_iff (outcome : String → Outcome ρ) (pids : List String) :
    firstReadable outcome pids = firstAnswer outcome pids ↔
      ∀ pid ∈ (firstAnswer outcome pids).1, (outcome pid).Readable := by
  induction pids with
  | nil => exact iff_of_true rfl (List.forall_mem_nil _)
  | cons pid rest ih =>
      rw [firstReadable, firstAnswer]
      cases houtcome : outcome pid with
      | raises error =>
          dsimp only
          rw [List.forall_mem_cons, houtcome, ← ih, Prod.ext_iff, Prod.ext_iff, List.cons_inj_right]
          exact (and_iff_right (show Outcome.Readable (.raises error) from trivial)).symm
      | returns result usage =>
          have hread : (∀ q ∈ [pid], (outcome q).Readable) ↔ usage.Readable := by
            rw [List.forall_mem_singleton, houtcome, Outcome.Readable]
          dsimp only
          rw [hread]
          cases usage with
          | tokens prompt completion => exact iff_of_true rfl trivial
          | noResult | noPrompt | noCompletion =>
              refine iff_of_false (fun heq => ?_) id
              obtain ⟨htried, hanswer⟩ := Prod.ext_iff.mp heq
              rw [firstReadable_snd_of_nil (List.cons.inj htried).2] at hanswer
              cases hanswer

/-- A single provider stands for all of an order just where it answers or is alone. -/
theorem firstReadable_singleton_iff :
    firstReadable outcome [pid] = firstAnswer outcome (pid :: rest) ↔
      (∀ q ∈ (firstAnswer outcome (pid :: rest)).1, (outcome q).Readable) ∧
        ((outcome pid).Returns ∨ rest = []) := by
  cases houtcome : outcome pid with
  | returns result usage =>
      have hfirst : firstAnswer outcome (pid :: rest) = firstAnswer outcome [pid] := by
        rw [firstAnswer, firstAnswer, houtcome]
      rw [hfirst, firstReadable_eq_iff]
      exact (and_iff_left (.inl trivial)).symm
  | raises error =>
      have hsingle : firstReadable outcome [pid] = ([pid], none) := by
        rw [firstReadable, houtcome]
        rfl
      rw [hsingle, firstAnswer, houtcome]
      constructor
      · intro heq
        have hrest := firstAnswer_of_nil (List.cons.inj (Prod.ext_iff.mp heq).1).2.symm
        subst hrest
        refine ⟨?_, .inr rfl⟩
        rw [firstAnswer, List.forall_mem_singleton, houtcome]
        trivial
      · rintro ⟨-, hreturns | rfl⟩
        · exact hreturns.elim
        · rfl

theorem reached_given (h : call.given = some pid) :
    call.reached s = if pid ∈ s.providers then [pid] else [] := by
  rw [Call.reached, Call.candidates, h]
  by_cases hmem : pid ∈ s.providers
  · simp [hmem]
  · simp [hmem]

theorem order_given (h : call.given = some pid) :
    call.order s = (if pid ∈ s.providers then [pid] else []) ++
      if call.fallback then s.providers.filter fun q => q ≠ pid else [] := by
  have hothers : (s.providers.filter fun q => some pid ≠ some q) =
      s.providers.filter fun q => q ≠ pid := by
    refine List.filter_congr fun q _ => ?_
    simp [eq_comm]
  rw [Call.order, h, Option.some_or, hothers]
  by_cases hmem : pid ∈ s.providers
  · simp [hmem]
  · simp [hmem]

/-- Without a given provider the order is that of the registration where the default comes first. -/
theorem order_eq_reached (hnone : call.given = none) (hfirst : s.default = s.providers.head?) :
    call.order s = call.reached s := by
  rw [Call.order, Call.reached, Call.candidates, hnone, Option.none_or, hfirst,
    List.filter_eq_self.mpr fun q hq => decide_eq_true hq]
  cases hproviders : s.providers with
  | nil => simp
  | cons first others =>
      have hnodup := s.nodup
      rw [hproviders, List.nodup_cons] at hnodup
      have hothers : ((first :: others).filter fun q => some first ≠ some q) = others := by
        rw [List.filter_cons, if_neg (by simp)]
        refine List.filter_eq_self.mpr fun q hq => ?_
        simpa using fun heq : first = q => hnodup.1 (heq ▸ hq)
      rw [List.head?_cons, hothers]
      by_cases hfallback : call.fallback = true
      · simp [hfallback]
      · simp [hfallback]

theorem head_firstAnswer : (firstAnswer outcome (pid :: rest)).1.head? = some pid := by
  rw [firstAnswer]
  cases outcome pid with
  | returns | raises => rfl

theorem head_firstReadable : (firstReadable outcome (pid :: rest)).1.head? = some pid := by
  rw [firstReadable]
  cases outcome pid with
  | raises => rfl
  | returns result usage =>
      cases usage with
      | tokens | noResult | noPrompt | noCompletion => rfl

/-- A call goes where it should just where it fits. -/
theorem routed_iff (s : LLMProviderRegistry) (call : Call ρ) : Routed s call ↔ Fits s call := by
  rw [Routed, complete_eq]
  cases hgiven : call.given with
  | some pid =>
      have hfits : Fits s call ↔
          (∀ q ∈ (firstAnswer call.outcome (call.order s)).1, (call.outcome q).Readable) ∧
            ((pid ∈ s.providers ∧ (call.outcome pid).Returns) ∨
              (if call.fallback then s.providers.filter fun q => q ≠ pid else []) = []) := by
        constructor
        · intro h
          refine ⟨h.readable, (h.alone pid hgiven).imp_right ?_⟩
          rintro (hfallback | hothers)
          · rw [hfallback, if_neg Bool.false_ne_true]
          · rw [hothers, ite_self]
        · rintro ⟨hreadable, halone⟩
          refine ⟨hreadable, fun q hq => ?_, fun hnone => ?_⟩
          · rw [hgiven] at hq
            cases hq
            refine halone.imp_right fun hrest => ?_
            cases hfallback : call.fallback with
            | false => exact .inl rfl
            | true => exact .inr (by simpa [hfallback] using hrest)
          · rw [hgiven] at hnone
            cases hnone
      rw [hfits, reached_given hgiven, order_given hgiven]
      by_cases hmem : pid ∈ s.providers
      · rw [if_pos hmem, List.singleton_append, firstReadable_singleton_iff, and_iff_right hmem]
      · rw [if_neg hmem, List.nil_append]
        constructor
        · intro heq
          have hrest := firstAnswer_of_nil (Prod.ext_iff.mp heq).1.symm
          rw [hrest]
          exact ⟨List.forall_mem_nil _, .inr rfl⟩
        · rintro ⟨-, hin | hrest⟩
          · exact absurd hin.1 hmem
          · rw [hrest]
            rfl
  | none =>
      by_cases hfirst : s.default = s.providers.head?
      · rw [order_eq_reached hgiven hfirst, firstReadable_eq_iff]
        constructor
        · intro hreadable
          refine ⟨by rwa [order_eq_reached hgiven hfirst], fun q hq => ?_, fun _ => hfirst⟩
          rw [hgiven] at hq
          cases hq
        · intro h
          rw [← order_eq_reached hgiven hfirst]
          exact h.readable
      · refine iff_of_false (fun heq => hfirst ?_) fun h => hfirst (h.first hgiven)
        cases hdefault : s.default with
        | none => rw [s.default_none hdefault, List.head?_nil]
        | some first =>
            have hmem := s.default_mem first hdefault
            cases hproviders : s.providers with
            | nil => exact absurd (hproviders ▸ hmem) List.not_mem_nil
            | cons pid others =>
                have hreached : ∃ rest, call.reached s = pid :: rest := by
                  rw [Call.reached, Call.candidates, hgiven, List.filter_eq_self.mpr fun q hq =>
                    decide_eq_true hq, hproviders]
                  split
                  · exact ⟨others, rfl⟩
                  · exact ⟨[], rfl⟩
                have horder : ∃ rest, call.order s = first :: rest := by
                  rw [Call.order, hgiven, Option.none_or, hdefault, Option.toList_some,
                    List.filter_cons, if_pos (decide_eq_true hmem)]
                  exact ⟨_, rfl⟩
                obtain ⟨rest, hrest⟩ := hreached
                obtain ⟨rest', hrest'⟩ := horder
                rw [hrest, hrest'] at heq
                have hheads := congrArg (fun tried : List String × Option ρ => tried.1.head?) heq
                rw [head_firstReadable, head_firstAnswer] at hheads
                exact hheads.symm

end Prodinamik.Llm
