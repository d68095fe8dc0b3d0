import Prodinamik.Llm.Registry

namespace Prodinamik.Llm

open Lib.Run

/-- What is done to a registry; a call of complete comes with what the providers come to. -/
inductive Op (ρ : Type)
  | register (pid : String) (default : Bool)
  | unregister (pid : String)
  | setDefault (pid : String)
  | complete (call : Call ρ)

/-- A registry with the completions so far: whose they were, and whether there was a result. -/
structure Ledger where
  registry : LLMProviderRegistry := {}
  completions : List (String × Bool) := []

variable {ρ : Type}

def Outcome.returned : Outcome ρ → Bool
  | returns _ _ => true
  | raises _ => false

def Call.completions (call : Call ρ) (tried : List String) : List (String × Bool) :=
  tried.map fun pid => (pid, (call.outcome pid).returned)

namespace Ledger

def step (l : Ledger) : Op ρ → Ledger
  | .register pid default => { l with registry := l.registry.register pid default }
  | .unregister pid => { l with registry := l.registry.unregister pid }
  | .setDefault pid => { l with registry := (l.registry.setDefault pid).getD l.registry }
  | .complete call =>
      { registry := (l.registry.complete call).registry
        completions := l.completions ++ call.completions (l.registry.complete call).tried }

/-- The calls and the failures of every provider are the completions it has had. -/
def Accounts (l : Ledger) : Prop :=
  ∀ pid ∈ l.registry.providers, ∃ stats, l.registry.usage pid = some stats ∧
    stats.totalCalls = l.completions.count (pid, true) ∧
    stats.failedCalls = l.completions.count (pid, false)

/-- Behind providers that raise comes no result with a usage that cannot be added up. -/
def MeetsReadable (call : Call ρ) (pids : List String) : Prop :=
  ∀ before pid after, pids = before ++ pid :: after →
    (∀ q ∈ before, ¬(call.outcome q).Returns) → (call.outcome pid).Readable

/-- A provider is registered before its first completion; no call meets an unreadable result. -/
def Keeps (l : Ledger) : Op ρ → Prop
  | .register pid _ => ∀ returned, (pid, returned) ∉ l.completions
  | .unregister _ => True
  | .setDefault _ => True
  | .complete call => MeetsReadable call (call.reached l.registry)

/-- More failures of a provider are counted than it has had. -/
def Ahead (l : Ledger) : Prop :=
  ∃ pid ∈ l.registry.providers, ∃ stats, l.registry.usage pid = some stats ∧
    l.completions.count (pid, false) < stats.failedCalls

def attempt (l : Ledger) (call : Call ρ) (pid : String) : Ledger where
  registry := (l.registry.attempt call pid).2
  completions := l.completions ++ [(pid, (call.outcome pid).returned)]

variable {l : Ledger} {call : Call ρ} {pid q : String} {rest : List String}

theorem meetsReadable_cons : MeetsReadable call (pid :: rest) ↔
    (call.outcome pid).Readable ∧ (¬(call.outcome pid).Returns → MeetsReadable call rest) := by
  constructor
  · intro h
    refine ⟨h [] pid rest rfl (List.forall_mem_nil _), fun hraises before q after hsplit hbefore => ?_⟩
    exact h (pid :: before) q after (by rw [hsplit, List.cons_append])
      (List.forall_mem_cons.mpr ⟨hraises, hbefore⟩)
  · rintro ⟨hread, hrest⟩ before q after hsplit hbefore
    cases before with
    | nil =>
        obtain ⟨rfl, -⟩ := List.cons.inj hsplit
        exact hread
    | cons p before =>
        obtain ⟨rfl, htail⟩ := List.cons.inj hsplit
        obtain ⟨hraises, hbefore'⟩ := List.forall_mem_cons.mp hbefore
        exact hrest hraises before q after htail hbefore'

theorem Accounts.not_ahead (h : Accounts l) : ¬Ahead l := by
  rintro ⟨pid, hpid, stats, husage, hlt⟩
  obtain ⟨stats', husage', -, hfailed⟩ := h pid hpid
  rw [husage] at husage'
  cases husage'
  exact absurd hlt (Nat.not_lt.mpr (Nat.le_of_eq hfailed))

theorem usage_attempt (s : LLMProviderRegistry) (call : Call ρ) (pid : String) :
    ∃ stats, (s.attempt call pid).2.usage = Function.update s.usage pid (some stats) ∧
      ((call.outcome pid).Readable →
        stats.totalCalls = ((s.usage pid).getD {}).totalCalls +
          (if (call.outcome pid).returned then 1 else 0) ∧
        stats.failedCalls = ((s.usage pid).getD {}).failedCalls +
          (if (call.outcome pid).returned then 0 else 1)) ∧
      (¬(call.outcome pid).Readable → (call.outcome pid).returned = true ∧
        stats.failedCalls = ((s.usage pid).getD {}).failedCalls + 1) := by
  rw [LLMProviderRegistry.attempt]
  cases call.outcome pid with
  | raises error => exact ⟨_, rfl, fun _ => ⟨rfl, rfl⟩, fun hnot => absurd trivial hnot⟩
  | returns result usage =>
      cases usage with
      | tokens prompt completion =>
          exact ⟨_, rfl, fun _ => ⟨rfl, rfl⟩, fun hnot => absurd trivial hnot⟩
      | noResult error => exact ⟨_, rfl, fun hread => hread.elim, fun _ => ⟨rfl, rfl⟩⟩
      | noPrompt error | noCompletion prompt error =>
          refine ⟨_, Function.update_idem _ _ _, fun hread => hread.elim, fun _ => ⟨rfl, ?_⟩⟩
          simp [LLMProviderRegistry.updateUsage]

theorem count_attempt (returned : Bool) :
    (l.attempt call pid).completions.count (q, returned) = l.completions.count (q, returned) +
      if pid = q ∧ (call.outcome pid).returned = returned then 1 else 0 := by
  rw [attempt, List.count_append, List.count_singleton]
  simp [Prod.ext_iff]

theorem Accounts.attempt (h : Accounts l) (hpid : pid ∈ l.registry.providers)
    (hread : (call.outcome pid).Readable) : Accounts (l.attempt call pid) := by
  intro q hq
  obtain ⟨stats, husage, hcounts, -⟩ := usage_attempt l.registry call pid
  obtain ⟨htotal, hfailed⟩ := hcounts hread
  rw [Ledger.attempt, providers_attempt] at hq
  rw [show (l.attempt call pid).registry.usage = _ from husage, count_attempt, count_attempt]
  by_cases hsame : q = pid
  · subst hsame
    obtain ⟨old, hold, holdTotal, holdFailed⟩ := h q hq
    rw [hold, Option.getD_some] at htotal hfailed
    refine ⟨stats, Function.update_self _ _ _, ?_, ?_⟩
    · rw [htotal, holdTotal]
      simp
    · rw [hfailed, holdFailed]
      cases (call.outcome q).returned with
      | true | false => simp
  · obtain ⟨old, hold, holdTotal, holdFailed⟩ := h q hq
    refine ⟨old, by rw [Function.update_of_ne hsame, hold], ?_, ?_⟩
    · rw [holdTotal, if_neg fun hand => hsame hand.1.symm, Nat.add_zero]
    · rw [holdFailed, if_neg fun hand => hsame hand.1.symm, Nat.add_zero]

theorem Accounts.ahead (h : Accounts l) (hpid : pid ∈ l.registry.providers)
    (hread : ¬(call.outcome pid).Readable) : Ahead (l.attempt call pid) := by
  obtain ⟨stats, husage, -, hcounts⟩ := usage_attempt l.registry call pid
  obtain ⟨hreturned, hfailed⟩ := hcounts hread
  obtain ⟨old, hold, -, holdFailed⟩ := h pid hpid
  refine ⟨pid, by rwa [Ledger.attempt, providers_attempt], stats, ?_, ?_⟩
  · rw [show (l.attempt call pid).registry.usage = _ from husage, Function.update_self]
  rw [count_attempt, hreturned, hfailed, hold, Option.getD_some, holdFailed]
  simp

theorem Ahead.attempt (h : Ahead l) : Ahead (l.attempt call pid) := by
  obtain ⟨q, hq, old, hold, hlt⟩ := h
  obtain ⟨stats, husage, hread, hnot⟩ := usage_attempt l.registry call pid
  have husage' : (l.attempt call pid).registry.usage = _ := husage
  have hq' : q ∈ (l.attempt call pid).registry.providers := by
    rwa [Ledger.attempt, providers_attempt]
  by_cases hsame : q = pid
  · subst hsame
    refine ⟨q, hq', stats, by rw [husage', Function.update_self], ?_⟩
    rw [count_attempt]
    rw [hold, Option.getD_some] at hread hnot
    by_cases hreadable : (call.outcome q).Readable
    · rw [(hread hreadable).2]
      cases (call.outcome q).returned with
      | true => simpa using hlt
      | false => simpa using hlt
    · rw [(hnot hreadable).1, (hnot hreadable).2]
      simpa using Nat.lt_succ_of_lt hlt
  · refine ⟨q, hq', old, by rw [husage', Function.update_of_ne hsame, hold], ?_⟩
    rw [count_attempt, if_neg fun hand => hsame hand.1.symm]
    exact hlt

theorem along_attempts {pids tried : List String} {answer : Option ρ} {s s' : LLMProviderRegistry}
    (h : Attempts call pids s tried answer s') (completions : List (String × Bool)) :
    (Ahead ⟨s, completions⟩ → Ahead ⟨s', completions ++ call.completions tried⟩) ∧
    ((∀ pid ∈ pids, pid ∈ s.providers) → Accounts ⟨s, completions⟩ →
      (Accounts ⟨s', completions ++ call.completions tried⟩ ↔ MeetsReadable call pids)) := by
  induction h generalizing completions with
  | none =>
      rw [Call.completions, List.map_nil, List.append_nil]
      refine ⟨id, fun _ haccounts => iff_of_true haccounts fun before pid after hsplit => ?_⟩
      cases before with
      | nil => cases hsplit
      | cons _ _ => cases hsplit
  | @answers s pid rest result h =>
      have hreturns : (call.outcome pid).Returns ∧ (call.outcome pid).Readable := by
        rcases @attempt_cases ρ rest s call pid with
          ⟨result', prompt, completion, houtcome, -⟩ | ⟨-, ⟨error, herror⟩, -⟩
        · rw [houtcome]
          exact ⟨trivial, trivial⟩
        · rw [h] at herror
          cases herror
      refine ⟨fun hahead => Ahead.attempt hahead, fun hmem haccounts => ?_⟩
      refine iff_of_true (haccounts.attempt (hmem pid List.mem_cons_self) hreturns.2) ?_
      exact meetsReadable_cons.mpr ⟨hreturns.2, fun hnot => absurd hreturns.1 hnot⟩
  | @fails s s' pid rest tried answer error h hrest ih =>
      have hfails : (call.outcome pid).Readable → ¬(call.outcome pid).Returns := by
        rcases @attempt_cases ρ rest s call pid with
          ⟨result', prompt, completion, -, hanswer⟩ | ⟨hfails, -⟩
        · rw [h] at hanswer
          cases hanswer
        · exact hfails
      have hlog : completions ++ call.completions (pid :: tried) =
          completions ++ [(pid, (call.outcome pid).returned)] ++ call.completions tried := by
        rw [Call.completions, List.map_cons, List.append_assoc]
        rfl
      obtain ⟨hahead, haccounts⟩ := ih (completions ++ [(pid, (call.outcome pid).returned)])
      rw [hlog]
      refine ⟨fun h => hahead (Ahead.attempt h), fun hmem hacc => ?_⟩
      obtain ⟨hpid, hrest'⟩ := List.forall_mem_cons.mp hmem
      rw [meetsReadable_cons]
      by_cases hread : (call.outcome pid).Readable
      · rw [and_iff_right hread, imp_iff_right (hfails hread)]
        refine haccounts (fun q hq => ?_) (hacc.attempt hpid hread)
        rw [providers_attempt]
        exact hrest' q hq
      · refine iff_of_false (fun hafter => ?_) fun hand => hread hand.1
        exact hafter.not_ahead (hahead (hacc.ahead hpid hread))

theorem reached_subset (s : LLMProviderRegistry) : ∀ pid ∈ call.reached s, pid ∈ s.providers := by
  intro pid hpid
  have hfilter : pid ∈ (call.candidates s).filter fun pid => pid ∈ s.providers := by
    rw [Call.reached] at hpid
    split at hpid
    · exact hpid
    · exact List.mem_of_mem_take hpid
  exact of_decide_eq_true (List.mem_filter.mp hfilter).2

theorem accounts_register (h : Accounts l) (default : Bool) :
    Accounts { l with registry := l.registry.register pid default } ↔
      ∀ returned, (pid, returned) ∉ l.completions := by
  have hself : (l.registry.register pid default).usage pid = some {} := Function.update_self _ _ _
  constructor
  · intro hafter returned
    have hmem : pid ∈ (l.registry.register pid default).providers := by
      rw [LLMProviderRegistry.register]
      dsimp only
      split
      case isTrue hmem => exact hmem
      case isFalse => exact List.mem_append_right _ (List.mem_singleton_self pid)
    obtain ⟨stats, husage, htotal, hfailed⟩ := hafter pid hmem
    rw [show (l.registry.register pid default).usage pid = _ from hself] at husage
    cases husage
    rw [← List.count_eq_zero]
    cases returned with
    | true => exact htotal.symm
    | false => exact hfailed.symm
  · intro hnew q hq
    by_cases hsame : q = pid
    · subst hsame
      exact ⟨{}, hself, (List.count_eq_zero.mpr (hnew true)).symm,
        (List.count_eq_zero.mpr (hnew false)).symm⟩
    · have hold : q ∈ l.registry.providers := by
        rw [LLMProviderRegistry.register] at hq
        dsimp only at hq
        split at hq
        · exact hq
        · exact (List.mem_append.mp hq).resolve_right fun hlast =>
            hsame (List.mem_singleton.mp hlast)
      obtain ⟨stats, husage, hcounts⟩ := h q hold
      exact ⟨stats, (Function.update_of_ne hsame _ _).trans husage, hcounts⟩

theorem accounts_step (h : Accounts l) (op : Op ρ) : Accounts (l.step op) ↔ Keeps l op := by
  cases op with
  | register pid default => exact accounts_register h default
  | unregister pid =>
      refine iff_of_true (fun q hq => ?_) trivial
      obtain ⟨hne, hmem⟩ := l.registry.nodup.mem_erase_iff.mp hq
      obtain ⟨stats, husage, hcounts⟩ := h q hmem
      exact ⟨stats, (Function.update_of_ne hne _ _).trans husage, hcounts⟩
  | setDefault pid =>
      refine iff_of_true ?_ trivial
      rw [step, LLMProviderRegistry.setDefault]
      split
      · exact h
      · exact h
  | complete call =>
      exact (along_attempts (attempts_complete l.registry call) l.completions).2
        (reached_subset l.registry) h

/-- The statistics are right throughout a run just where every step of it keeps them. -/
theorem accounts_run (ops : List (Op ρ)) :
    Always step Accounts {} ops ↔ Steps step Keeps {} ops := by
  refine along_iff_steps (fun _ => True) (fun _ _ _ => trivial) (fun l op _ h => ?_) trivial ?_ ops
  · rw [and_iff_left trivial]
    exact accounts_step h op
  · exact fun pid hpid => absurd hpid List.not_mem_nil

/-- Every call goes where it should just where it fits, and the statistics are right throughout
just where no provider is registered after a completion and no call meets an unreadable result. -/
theorem serves_iff :
    (∀ (s : LLMProviderRegistry) (call : Call ρ), Routed s call ↔ Fits s call) ∧
    ∀ ops : List (Op ρ), Always step Accounts {} ops ↔ Steps step Keeps {} ops :=
  ⟨routed_iff, accounts_run⟩

/-- The provider that was made the default comes after the one that was registered before. -/
theorem not_routed_default :
    ¬((∀ (s : LLMProviderRegistry) (call : Call Unit), Routed s call) ∧
      ∀ ops : List (Op Unit), Always step Accounts {} ops) := by
  rintro ⟨hrouted, -⟩
  have hfits := (routed_iff _ _).mp (hrouted
    (LLMProviderRegistry.register (LLMProviderRegistry.register {} "openai" false) "ollama" true)
    { outcome := fun _ => .returns () (.tokens 1 1) })
  exact absurd (hfits.first rfl) (by decide)

end Ledger

end Prodinamik.Llm
