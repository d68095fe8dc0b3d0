import Prodinamik.Lib.Interleave
import Prodinamik.Validators.Cache

namespace Prodinamik.Validators

open Lib

/-- What a call of validate comes to. -/
inductive Outcome (δ : Type)
  | returned (result : ValidationResult δ)
  | timedOut
  | raised
  deriving DecidableEq, Repr

structure Validator (α δ : Type) where
  name : String
  tier : ValidatorTier
  critical : Bool := false
  dependsOn : List String := []
  cacheTtl : Nat := 3600
  validate : α → Outcome δ

namespace ValidatorTimeoutManager

def defaultTimeouts : List (String × Nat) :=
  [("SlopScanT1", 10), ("FormatCheck", 5), ("SchemaValidator", 10), ("CompileCheck", 120),
    ("SyntaxCheck", 5), ("BuildValidator", 300), ("SmokeTestValidator", 60),
    ("TestCoverageValidator", 60), ("SecurityAudit", 30)]

def getTimeout (validatorName : String) (default : Nat := 30) : Nat :=
  (defaultTimeouts.lookup validatorName).getD default

variable {α δ : Type} [EmptyCollection δ]

/-- None where the exception goes on to the caller. -/
def runWithTimeout (v : Validator α δ) (artifact : α) : Option (ValidationResult δ) :=
  match v.validate artifact with
  | .returned result => some result
  | .timedOut =>
      some ⟨false, "⏱️ " ++ v.name ++ " timed out after " ++ toString (getTimeout v.name) ++ "s", ∅,
        true, 0⟩
  | .raised => none

end ValidatorTimeoutManager

open ValidatorTimeoutManager ContentAddressableCache

/-- The results dict, a name with its result. -/
abbrev Results (δ : Type) := Table (Prod.fst : String × ValidationResult δ → String)

namespace Results

variable {δ : Type}

def result (results : Results δ) (name : String) : Option (ValidationResult δ) :=
  (results.get name).map Prod.snd

def allPassed (results : Results δ) : Bool := results.rows.all fun x => x.2.skipped || x.2.passed

theorem result_eq_some {results : Results δ} {name : String} {r : ValidationResult δ} :
    results.result name = some r ↔ (name, r) ∈ results.rows := by
  rw [result, Option.map_eq_some_iff]
  constructor
  · rintro ⟨x, hx, rfl⟩
    obtain ⟨hmem, rfl⟩ := Table.get_eq_some.mp hx
    exact hmem
  · exact fun h => ⟨(name, r), Table.get_eq_some.mpr ⟨h, rfl⟩, rfl⟩

theorem allPassed_iff {results : Results δ} :
    results.allPassed = true ↔
      ∀ name r, results.result name = some r → r.skipped = true ∨ r.passed = true := by
  rw [allPassed, List.all_eq_true]
  constructor
  · intro h name r hr
    exact (Bool.or_eq_true _ _).mp (h (name, r) (result_eq_some.mp hr))
  · rintro h ⟨name, r⟩ hmem
    exact (Bool.or_eq_true _ _).mpr (h name r (result_eq_some.mpr hmem))

theorem allPassed_congr {results results' : Results δ}
    (h : results.result = results'.result) : results.allPassed = results'.allPassed := by
  rw [Bool.eq_iff_iff, allPassed_iff, allPassed_iff, h]

end Results

structure PipelineResult (δ : Type) where
  passed : Bool
  results : Results δ
  stoppedAt : String := ""
  tier : String

structure ValidatorPipeline (δ : Type) where
  cache : ContentAddressableCache δ := {}
  cachePolicy : CachePolicy := .full
  llmCalls : List (String × Rat) := []

/-- A run on its way: the pipeline's cache and costs, the results so far, and
the validators it has called. -/
structure Progress (α δ : Type) where
  cache : ContentAddressableCache δ
  llmCalls : List (String × Rat)
  results : Results δ
  calls : List (Validator α δ)

variable {α δ : Type} [EmptyCollection δ] (env : Env α δ) (policy : CachePolicy) (artifact : α)

namespace Progress

def lookup (v : Validator α δ) (s : Progress α δ) : Option (ValidationResult δ) × Progress α δ :=
  let (cached, cache) := s.cache.get env (env.str artifact) v.name v.tier policy
  (cached, { s with cache := cache })

/-- The call with its timeout and the set after it, which hands over the
validator's ttl in the place of a tier. -/
def execute (v : Validator α δ) (s : Progress α δ) : Option (ValidationResult δ) × Progress α δ :=
  let s := { s with calls := s.calls ++ [v] }
  match runWithTimeout v artifact with
  | none => (none, s)
  | some result =>
      let (written, cache) := s.cache.set env (env.str artifact) v.name result v.cacheTtl
      (if written then some result else none, { s with cache := cache })

def record (v : Validator α δ) (result : ValidationResult δ) (s : Progress α δ) : Progress α δ :=
  { s with results := s.results.put (v.name, result) }

def charge (v : Validator α δ) (result : ValidationResult δ) (s : Progress α δ) : Progress α δ :=
  if 0 < result.costUsd then
    { s with llmCalls := s.llmCalls ++ [(v.name, result.costUsd)] }
  else s

end Progress

open Progress

/-- None where an exception goes through. -/
def runTier1 : List (Validator α δ) → Progress α δ → Option Bool × Progress α δ
  | [], s => (some true, s)
  | v :: vs, s =>
      match lookup env policy artifact v s with
      | (some cached, s) =>
          let s := record v cached s
          if cached.passed then runTier1 vs s else (some false, s)
      | (none, s) =>
          match execute env artifact v s with
          | (none, s) => (none, s)
          | (some result, s) =>
              let s := record v result s
              if !result.passed && v.critical then (some false, s) else runTier1 vs s

inductive Phase
  | waiting
  | running
  | done
  deriving DecidableEq, Repr

structure Job (α δ : Type) where
  validator : Validator α δ
  phase : Phase

namespace Job

def finish (v : Validator α δ) (s : Progress α δ) : Progress α δ :=
  match execute env artifact v s with
  | (none, s) => s
  | (some result, s) => record v result (charge v result s)

/-- A task of run_one: up to the call of the validator, and from its end on. -/
def turn (job : Job α δ) (s : Progress α δ) : Job α δ × Progress α δ :=
  match job.phase with
  | .waiting =>
      match lookup env policy artifact job.validator s with
      | (some cached, s) => ({ job with phase := .done }, record job.validator cached s)
      | (none, s) => ({ job with phase := .running }, s)
  | .running => ({ job with phase := .done }, finish env artifact job.validator s)
  | .done => (job, s)

end Job

/-- The event loop gives the tasks turns until all are done; gather keeps their
exceptions to itself. -/
def runTier2 (schedule : List Nat) (vs : List (Validator α δ)) (s : Progress α δ) : Progress α δ :=
  (Interleave.run (Job.turn env policy artifact) (vs.map fun v => ⟨v, .waiting⟩, s)
    (Interleave.rounds 2 vs.length schedule)).2

def depsPassed (v : Validator α δ) (results : Results δ) : Bool :=
  v.dependsOn.all fun d => (results.result d).any fun result => result.passed

def skippedResult (v : Validator α δ) : ValidationResult δ :=
  ⟨false, "⏭️ Skipped (dependency failed: " ++ ", ".intercalate v.dependsOn ++ ")", ∅, true, 0⟩

/-- False where an exception goes through. -/
def runTier3 : List (Validator α δ) → Progress α δ → Bool × Progress α δ
  | [], s => (true, s)
  | v :: vs, s =>
      if depsPassed v s.results then
        match lookup env policy artifact v s with
        | (some cached, s) => runTier3 vs (record v cached s)
        | (none, s) =>
            match execute env artifact v s with
            | (none, s) => (false, s)
            | (some result, s) => runTier3 vs (record v result s)
      else runTier3 vs (record v (skippedResult v) s)

namespace ValidatorPipeline

def start (p : ValidatorPipeline δ) : Progress α δ := ⟨p.cache, p.llmCalls, Table.empty, []⟩

/-- The result is none where an exception goes through. -/
def run (schedule : List Nat) (tier1 tier2 tier3 : List (Validator α δ))
    (p : ValidatorPipeline δ) : Option (PipelineResult δ) × Progress α δ :=
  match runTier1 env p.cachePolicy artifact tier1 p.start with
  | (none, s) => (none, s)
  | (some false, s) =>
      (some ⟨false, s.results, (tier1.head?.map Validator.name).getD "t1", "T1"⟩, s)
  | (some true, s) =>
      let s := runTier2 env p.cachePolicy artifact schedule tier2 s
      match runTier3 env p.cachePolicy artifact tier3 s with
      | (false, s) => (none, s)
      | (true, s) =>
          (some { passed := s.results.allPassed, results := s.results,
                  tier := if tier3.isEmpty then "T2" else "T3" }, s)

/-- The same pipeline after a run. -/
def after (p : ValidatorPipeline δ) (s : Progress α δ) : ValidatorPipeline δ :=
  { p with cache := s.cache, llmCalls := s.llmCalls }

end ValidatorPipeline

section Equations

variable {env policy artifact} {v : Validator α δ} {vs : List (Validator α δ)}
  {s t u : Progress α δ} {result : ValidationResult δ}

theorem runTier1_hit (hlook : lookup env policy artifact v s = (some result, t)) :
    runTier1 env policy artifact (v :: vs) s =
      if result.passed then runTier1 env policy artifact vs (record v result t)
      else (some false, record v result t) := by
  rw [runTier1, hlook]

theorem runTier1_raise (hlook : lookup env policy artifact v s = (none, t))
    (hexec : execute env artifact v t = (none, u)) :
    runTier1 env policy artifact (v :: vs) s = (none, u) := by
  rw [runTier1, hlook]
  dsimp only
  rw [hexec]

theorem runTier1_run (hlook : lookup env policy artifact v s = (none, t))
    (hexec : execute env artifact v t = (some result, u)) :
    runTier1 env policy artifact (v :: vs) s =
      if !result.passed && v.critical then (some false, record v result u)
      else runTier1 env policy artifact vs (record v result u) := by
  rw [runTier1, hlook]
  dsimp only
  rw [hexec]

theorem runTier3_skip (hdeps : depsPassed v s.results = false) :
    runTier3 env policy artifact (v :: vs) s =
      runTier3 env policy artifact vs (record v (skippedResult v) s) := by
  rw [runTier3, hdeps, if_neg Bool.false_ne_true]

theorem runTier3_hit (hdeps : depsPassed v s.results = true)
    (hlook : lookup env policy artifact v s = (some result, t)) :
    runTier3 env policy artifact (v :: vs) s =
      runTier3 env policy artifact vs (record v result t) := by
  rw [runTier3, if_pos hdeps, hlook]

theorem runTier3_raise (hdeps : depsPassed v s.results = true)
    (hlook : lookup env policy artifact v s = (none, t))
    (hexec : execute env artifact v t = (none, u)) :
    runTier3 env policy artifact (v :: vs) s = (false, u) := by
  rw [runTier3, if_pos hdeps, hlook]
  dsimp only
  rw [hexec]

theorem runTier3_run (hdeps : depsPassed v s.results = true)
    (hlook : lookup env policy artifact v s = (none, t))
    (hexec : execute env artifact v t = (some result, u)) :
    runTier3 env policy artifact (v :: vs) s =
      runTier3 env policy artifact vs (record v result u) := by
  rw [runTier3, if_pos hdeps, hlook]
  dsimp only
  rw [hexec]

variable {schedule : List Nat} {tier1 tier2 tier3 : List (Validator α δ)}
  {p : ValidatorPipeline δ} {r : PipelineResult δ}

theorem run_stopped (h1 : runTier1 env p.cachePolicy artifact tier1 p.start = (some false, s)) :
    p.run env artifact schedule tier1 tier2 tier3 =
      (some ⟨false, s.results, (tier1.head?.map Validator.name).getD "t1", "T1"⟩, s) := by
  rw [ValidatorPipeline.run, h1]

theorem run_through (h1 : runTier1 env p.cachePolicy artifact tier1 p.start = (some true, s))
    (h3 : runTier3 env p.cachePolicy artifact tier3
      (runTier2 env p.cachePolicy artifact schedule tier2 s) = (true, t)) :
    p.run env artifact schedule tier1 tier2 tier3 =
      (some { passed := t.results.allPassed, results := t.results,
              tier := if tier3.isEmpty then "T2" else "T3" }, t) := by
  rw [ValidatorPipeline.run, h1]
  dsimp only
  rw [h3]

/-- A run that gives a result stopped in the first tier or came through all. -/
theorem run_cases (h : (p.run env artifact schedule tier1 tier2 tier3).1 = some r) :
    (∃ s, runTier1 env p.cachePolicy artifact tier1 p.start = (some false, s) ∧
      r.passed = false ∧ r.results = s.results ∧
      (p.run env artifact schedule tier1 tier2 tier3).2 = s) ∨
    ∃ s t, runTier1 env p.cachePolicy artifact tier1 p.start = (some true, s) ∧
      runTier3 env p.cachePolicy artifact tier3
        (runTier2 env p.cachePolicy artifact schedule tier2 s) = (true, t) ∧
      r.passed = t.results.allPassed ∧ r.results = t.results ∧
      (p.run env artifact schedule tier1 tier2 tier3).2 = t := by
  rcases h1 : runTier1 env p.cachePolicy artifact tier1 p.start with ⟨_ | _ | _, s⟩
  · rw [ValidatorPipeline.run, h1] at h
    cases h
  · rw [run_stopped h1] at h ⊢
    cases h
    exact .inl ⟨s, rfl, rfl, rfl, rfl⟩
  · rcases h3 : runTier3 env p.cachePolicy artifact tier3
      (runTier2 env p.cachePolicy artifact schedule tier2 s) with ⟨_ | _, t⟩
    · rw [ValidatorPipeline.run, h1] at h
      dsimp only at h
      rw [h3] at h
      cases h
    · rw [run_through h1 h3] at h ⊢
      cases h
      exact .inr ⟨s, t, rfl, h3, rfl, rfl, rfl⟩

theorem run_cases_of_tier1
    (h1 : runTier1 env p.cachePolicy artifact tier1 p.start = (some true, s))
    (h : (p.run env artifact schedule tier1 tier2 tier3).1 = some r) :
    ∃ t, runTier3 env p.cachePolicy artifact tier3
        (runTier2 env p.cachePolicy artifact schedule tier2 s) = (true, t) ∧
      r.passed = t.results.allPassed ∧ r.results = t.results ∧
      (p.run env artifact schedule tier1 tier2 tier3).2 = t := by
  rcases run_cases h with ⟨s', h1', -⟩ | ⟨s', t, h1', h3⟩
  · cases h1.symm.trans h1'
  · cases h1.symm.trans h1'
    exact ⟨t, h3⟩

end Equations

/-! What every step of a tier keeps. -/

section Preserved

/-- The steps that runs are made of, taken for some validators. -/
structure Preserved (vs : List (Validator α δ)) (I : Progress α δ → Prop) : Prop where
  lookup : ∀ v ∈ vs, ∀ s, I s → I (lookup env policy artifact v s).2
  execute : ∀ v ∈ vs, ∀ s, I s → I (execute env artifact v s).2
  charge : ∀ v ∈ vs, ∀ r s, I s → I (charge v r s)
  record : ∀ v ∈ vs, ∀ r s, I s → I (record v r s)

variable {env policy artifact} {vs ws : List (Validator α δ)} {I : Progress α δ → Prop}
  {s : Progress α δ}

theorem Preserved.subset (h : Preserved env policy artifact vs I) (hws : ∀ v ∈ ws, v ∈ vs) :
    Preserved env policy artifact ws I :=
  ⟨fun v hv => h.lookup v (hws v hv), fun v hv => h.execute v (hws v hv),
    fun v hv => h.charge v (hws v hv), fun v hv => h.record v (hws v hv)⟩

theorem Preserved.tail {v : Validator α δ} (h : Preserved env policy artifact (v :: vs) I) :
    Preserved env policy artifact vs I :=
  h.subset fun _ => List.mem_cons_of_mem v

theorem Preserved.tier1 (h : Preserved env policy artifact vs I) (hs : I s) :
    I (runTier1 env policy artifact vs s).2 := by
  induction vs generalizing s with
  | nil => exact hs
  | cons v vs ih =>
      have hv : v ∈ v :: vs := List.mem_cons_self
      have hlook := h.lookup v hv s hs
      rcases hl : Progress.lookup env policy artifact v s with ⟨_ | cached, t⟩
      · rw [hl] at hlook
        have hexec := h.execute v hv t hlook
        rcases he : Progress.execute env artifact v t with ⟨_ | result, u⟩
        · rwa [runTier1_raise hl he, ← congrArg Prod.snd he]
        · rw [he] at hexec
          have hrecord := h.record v hv result u hexec
          rw [runTier1_run hl he]
          split
          · exact hrecord
          · exact ih h.tail hrecord
      · rw [hl] at hlook
        have hrecord := h.record v hv cached t hlook
        rw [runTier1_hit hl]
        split
        · exact ih h.tail hrecord
        · exact hrecord

theorem Preserved.finish (h : Preserved env policy artifact vs I) {v : Validator α δ} (hv : v ∈ vs)
    (hs : I s) : I (Job.finish env artifact v s) := by
  have hexec := h.execute v hv s hs
  rw [Job.finish]
  rcases he : Progress.execute env artifact v s with ⟨_ | result, u⟩
  · rwa [he] at hexec
  · rw [he] at hexec
    exact h.record v hv result _ (h.charge v hv result u hexec)

theorem Preserved.turn (h : Preserved env policy artifact vs I) {job : Job α δ}
    (hv : job.validator ∈ vs) (hs : I s) : I (job.turn env policy artifact s).2 := by
  rw [Job.turn]
  cases job.phase with
  | waiting =>
      have hlook := h.lookup job.validator hv s hs
      rcases hl : Progress.lookup env policy artifact job.validator s with ⟨_ | cached, t⟩
      · rwa [hl] at hlook
      · rw [hl] at hlook
        exact h.record job.validator hv cached t hlook
  | running => exact h.finish hv hs
  | done => exact hs

theorem turn_validator (job : Job α δ) (s : Progress α δ) :
    (job.turn env policy artifact s).1.validator = job.validator := by
  rw [Job.turn]
  cases job.phase with
  | waiting => rcases lookup env policy artifact job.validator s with ⟨_ | cached, t⟩ <;> rfl
  | running => rfl
  | done => rfl

theorem Preserved.tier2 (h : Preserved env policy artifact vs I) (schedule : List Nat)
    (hs : I s) : I (runTier2 env policy artifact schedule vs s) := by
  refine Interleave.run_invariant (P := fun job => job.validator ∈ vs)
    (fun job t hjob ht => ⟨?_, h.turn hjob ht⟩) (fun job hjob => ?_) hs _
  · rwa [turn_validator]
  · obtain ⟨v, hv, rfl⟩ := List.mem_map.mp hjob
    exact hv

theorem Preserved.tier3 (h : Preserved env policy artifact vs I) (hs : I s) :
    I (runTier3 env policy artifact vs s).2 := by
  induction vs generalizing s with
  | nil => exact hs
  | cons v vs ih =>
      have hv : v ∈ v :: vs := List.mem_cons_self
      cases hdeps : depsPassed v s.results with
      | false =>
          rw [runTier3_skip hdeps]
          exact ih h.tail (h.record v hv _ s hs)
      | true =>
          have hlook := h.lookup v hv s hs
          rcases hl : Progress.lookup env policy artifact v s with ⟨_ | cached, t⟩
          · rw [hl] at hlook
            have hexec := h.execute v hv t hlook
            rcases he : Progress.execute env artifact v t with ⟨_ | result, u⟩
            · rwa [runTier3_raise hdeps hl he, ← congrArg Prod.snd he]
            · rw [he] at hexec
              rw [runTier3_run hdeps hl he]
              exact ih h.tail (h.record v hv result u hexec)
          · rw [hl] at hlook
            rw [runTier3_hit hdeps hl]
            exact ih h.tail (h.record v hv cached t hlook)

theorem Preserved.after_hit {v : Validator α δ} (h : Preserved env policy artifact [v] I)
    {t : Progress α δ} {o : Option (ValidationResult δ)}
    (hlook : Progress.lookup env policy artifact v s = (o, t)) (hs : I s)
    (result : ValidationResult δ) : I (Progress.record v result t) := by
  have ht := h.lookup v (List.mem_singleton_self v) s hs
  rw [hlook] at ht
  exact h.record v (List.mem_singleton_self v) result t ht

theorem Preserved.after_run {v : Validator α δ} (h : Preserved env policy artifact [v] I)
    {t u : Progress α δ} {o o' : Option (ValidationResult δ)}
    (hlook : Progress.lookup env policy artifact v s = (o, t))
    (hexec : Progress.execute env artifact v t = (o', u)) (hs : I s)
    (result : ValidationResult δ) : I (Progress.record v result u) := by
  have ht := h.lookup v (List.mem_singleton_self v) s hs
  rw [hlook] at ht
  have hu := h.execute v (List.mem_singleton_self v) t ht
  rw [hexec] at hu
  exact h.record v (List.mem_singleton_self v) result u hu

theorem Preserved.run_of_tier1 {tier1 tier2 tier3 : List (Validator α δ)} {p : ValidatorPipeline δ}
    (h : Preserved env p.cachePolicy artifact (tier2 ++ tier3) I)
    (h1 : I (runTier1 env p.cachePolicy artifact tier1 p.start).2) (schedule : List Nat) :
    I (p.run env artifact schedule tier1 tier2 tier3).2 := by
  rw [ValidatorPipeline.run]
  rcases hr : runTier1 env p.cachePolicy artifact tier1 p.start with ⟨_ | _ | _, s⟩
  · rwa [hr] at h1
  · rwa [hr] at h1
  · rw [hr] at h1
    have h2 := (h.subset fun v hv => List.mem_append_left _ hv).tier2 schedule h1
    have h3 := (h.subset fun v hv => List.mem_append_right _ hv).tier3 h2
    dsimp only
    rcases ht : runTier3 env p.cachePolicy artifact tier3
      (runTier2 env p.cachePolicy artifact schedule tier2 s) with ⟨_ | _, t⟩
    · rwa [ht] at h3
    · rwa [ht] at h3

theorem Preserved.run {tier1 tier2 tier3 : List (Validator α δ)} {p : ValidatorPipeline δ}
    (h : Preserved env p.cachePolicy artifact (tier1 ++ tier2 ++ tier3) I) (hp : I p.start)
    (schedule : List Nat) : I (p.run env artifact schedule tier1 tier2 tier3).2 := by
  rw [List.append_assoc] at h
  have h1 := (h.subset fun v hv => List.mem_append_left _ hv).tier1 hp
  exact (h.subset fun v hv => List.mem_append_right _ hv).run_of_tier1 h1 schedule

end Preserved

section Owned

variable {env policy artifact} {vs : List (Validator α δ)} {R : Validator α δ → Validator α δ → Prop}
  {Q : Phase → Validator α δ → Progress α δ → Prop}

def Phase.left : Phase → Nat
  | waiting => 2
  | running => 1
  | done => 0

theorem left_turn (job : Job α δ) (s : Progress α δ) :
    (job.turn env policy artifact s).1.phase.left ≤ job.phase.left - 1 := by
  rw [Job.turn]
  rcases hphase : job.phase
  · rcases lookup env policy artifact job.validator s with ⟨_ | cached, t⟩
    · exact le_rfl
    · exact Nat.zero_le _
  · exact le_rfl
  · rw [hphase]
    exact le_rfl

/-- Every validator of the second tier ends with what its own steps come to, if
the others leave alone what it owns. -/
theorem runTier2_owned (hother : ∀ u ∈ vs, ∀ v, R u v → ∀ phase,
      Preserved env policy artifact [u] (Q phase v))
    (hhit : ∀ v ∈ vs, ∀ s t result, Q .waiting v s →
      lookup env policy artifact v s = (some result, t) → Q .done v (record v result t))
    (hmiss : ∀ v ∈ vs, ∀ s t, Q .waiting v s → lookup env policy artifact v s = (none, t) →
      Q .running v t)
    (hfinish : ∀ v ∈ vs, ∀ s, Q .running v s → Q .done v (Job.finish env artifact v s))
    (hsymm : ∀ u v, R u v → R v u) (hrel : vs.Pairwise R) {s : Progress α δ}
    (hs : ∀ v ∈ vs, Q .waiting v s) (schedule : List Nat) :
    ∀ v ∈ vs, Q .done v (runTier2 env policy artifact schedule vs s) := by
  have hjobs := Interleave.run_owned (Job.turn env policy artifact)
    (R := fun j k => (j.validator ∈ vs ∧ k.validator ∈ vs) ∧ R j.validator k.validator)
    (Q := fun j s => j.validator ∈ vs ∧ Q j.phase j.validator s)
    (x := (vs.map fun v => ⟨v, .waiting⟩, s)) (fun j k s h => ?rel) (fun j s h => ?self)
    (fun j k s h hk => ?other) (fun i j t u hij ht hu => ?apart) (fun j hj => ?init)
    (Interleave.rounds 2 vs.length schedule)
  case rel =>
    rw [turn_validator]
    exact ⟨h, h.1.symm, hsymm _ _ h.2⟩
  case self =>
    refine ⟨by rw [turn_validator]; exact h.1, ?_⟩
    obtain ⟨v, phase⟩ := j
    obtain ⟨hv, hQ⟩ := h
    cases phase with
    | waiting =>
        rcases hl : lookup env policy artifact v s with ⟨_ | cached, t⟩
        · simpa [Job.turn, hl] using hmiss v hv s t hQ hl
        · simpa [Job.turn, hl] using hhit v hv s t cached hQ hl
    | running => exact hfinish v hv s hQ
    | done => exact hQ
  case other =>
    exact ⟨hk.1, (hother j.validator h.1.1 k.validator h.2 k.phase).turn
      (List.mem_singleton_self _) hk.2⟩
  case apart =>
    rw [List.getElem?_map, Option.map_eq_some_iff] at ht hu
    obtain ⟨v, hv, rfl⟩ := ht
    obtain ⟨w, hw, rfl⟩ := hu
    refine ⟨⟨List.mem_of_getElem? hv, List.mem_of_getElem? hw⟩, ?_⟩
    obtain ⟨hi, rfl⟩ := List.getElem?_eq_some_iff.mp hv
    obtain ⟨hj, rfl⟩ := List.getElem?_eq_some_iff.mp hw
    rcases Nat.lt_or_gt_of_ne hij with hlt | hlt
    · exact List.pairwise_iff_getElem.mp hrel i j hi hj hlt
    · exact hsymm _ _ (List.pairwise_iff_getElem.mp hrel j i hj hi hlt)
  case init =>
    obtain ⟨v, hv, rfl⟩ := List.mem_map.mp hj
    exact ⟨hv, hs v hv⟩
  intro v hv
  obtain ⟨i, hi⟩ := List.mem_iff_getElem?.mp hv
  have howner := Interleave.map_getElem?_run Job.validator
    (fun j s => show (j.turn env policy artifact s).1.validator = _ from turn_validator j s)
    (vs.map fun v => ⟨v, .waiting⟩, s) (Interleave.rounds 2 vs.length schedule) i
  rw [List.getElem?_map, hi, Option.map_some, Option.map_some, Option.map_eq_some_iff] at howner
  obtain ⟨job, hjob, rfl⟩ := howner
  obtain ⟨start, hstart, hleft⟩ := Interleave.left_run (fun j : Job α δ => j.phase.left)
    left_turn hjob
  have hcount := Interleave.le_count_rounds 2 vs.length schedule
    (List.getElem?_eq_some_iff.mp hi).1
  have hdone : job.phase = .done := by
    have hle : start.phase.left ≤ 2 := by cases start.phase <;> decide
    have hzero : job.phase.left = 0 := by omega
    cases hphase : job.phase <;> simp [hphase, Phase.left] at hzero ⊢
  have := (hjobs job (List.mem_of_getElem? hjob)).2
  rwa [hdone] at this

end Owned

end Prodinamik.Validators
