import Prodinamik.Agents.ContextManager

namespace Prodinamik.Agents

open Lib Lib.Json

variable {fl : Floats} (host : Host fl)

namespace ContextConfig

def tokens (ms : List (Message fl.Num)) : Int :=
  ms.foldl (fun total m => total + estimateTokens m.content) 0

/-- The least of the estimates that the newest of some messages can do without. -/
def keptTokens (available : Int) : List Int → Int
  | [] => 0
  | t :: newer =>
      let total := keptTokens available newer
      if total + t ≤ available then total + t else total

variable (config : ContextConfig) (steps : List (StepRecord fl.Num))

def available : Int := config.maxTokens - config.reserveTokens

/-- How many of the steps are summarized. -/
def split : Nat := ((steps.length : Int) - config.fullFidelitySteps).toNat

def window : List (Message fl.Num) := (steps.drop (config.split steps)).map (stepToMessage host)

def summaryMessage (summary : List Char) : Message fl.Num :=
  ⟨"system", .text ("[Previous steps summary]: ".toList ++
    PyList.slice summary config.summaryMaxTokens)⟩

/-- What is left of a system message that does not fit. -/
def cutMessage (msg : Message fl.Num) : Message fl.Num :=
  ⟨"system", .text (host.shown (msg.content.take (max 100 (config.available / 4)).toNat) ++
    "...".toList)⟩

structure Budgeted : Prop where
  reserve_nonneg : 0 ≤ config.reserveTokens
  reserve_lt : config.reserveTokens < config.maxTokens

/-- The messages fit the budget and are in the order of the steps, after a summary of those that
are old; the newest step of the window is there if its message fits. -/
structure Served (ms : List (Message fl.Num)) : Prop where
  budget : tokens ms ≤ config.available
  order : ∃ summary kept, ms = summary ++ kept ∧ summary.length ≤ 1 ∧
    (∀ m ∈ summary, m.role = "system") ∧ kept.Sublist (config.window host steps)
  newest : 0 < config.fullFidelitySteps → ∀ step, steps.getLast? = some step →
    estimateTokens (stepToMessage host step).content ≤ config.available →
    ms.getLast? = some (stepToMessage host step)

/-- The summary, whole or cut, fits in beside the messages of the window that are kept. -/
def SummaryFits : Prop :=
  ∀ summary, 0 < config.split steps → compileStepSummary (steps.take (config.split steps)) = some summary →
    let kept := keptTokens config.available
      ((config.window host steps).map fun m => estimateTokens m.content)
    kept + estimateTokens (config.summaryMessage summary : Message fl.Num).content ≤ config.available ∨
      kept + estimateTokens (config.cutMessage host (config.summaryMessage summary)).content ≤
        config.available

variable {config} {steps} {m : Message fl.Num} {ms rest : List (Message fl.Num)}

theorem Budgeted.available_nonneg (h : config.Budgeted) : 0 ≤ config.available :=
  Int.sub_nonneg_of_le (Int.le_of_lt h.reserve_lt)

theorem untrimmed_eq : config.untrimmed host steps =
    if config.split steps = 0 then some (config.window host steps)
    else (compileStepSummary (steps.take (config.split steps))).map fun summary =>
      config.summaryMessage summary :: config.window host steps := rfl

theorem estimateTokens_nonneg (content : Content fl.Num) : 0 ≤ estimateTokens content := by
  rw [estimateTokens]
  split
  · exact le_refl 0
  · exact Int.le_trans Int.one_nonneg (Int.le_max_left _ _)

theorem foldl_tokens (start : Int) :
    rest.foldl (fun total m => total + estimateTokens m.content) start = start + tokens rest := by
  induction rest generalizing start with
  | nil => exact (Int.add_zero start).symm
  | cons m rest ih =>
      rw [tokens, List.foldl_cons, List.foldl_cons, ih, ih, Int.zero_add, Int.add_assoc]

theorem tokens_cons : tokens (m :: rest) = estimateTokens m.content + tokens rest := by
  rw [tokens, List.foldl_cons, foldl_tokens, Int.zero_add]

theorem tokens_nonneg (ms : List (Message fl.Num)) : 0 ≤ tokens ms := by
  induction ms with
  | nil => exact le_refl 0
  | cons m rest ih =>
      rw [tokens_cons]
      exact Int.add_nonneg (estimateTokens_nonneg _) ih

theorem summarize_eq : config.summarize host steps = (config.untrimmed host steps).map fun ms =>
    if config.available < tokens ms then trimMessages host ms config.available else ms := rfl

theorem trimMessages_eq (available : Int) : trimMessages host ms available =
    (ms.foldr (fun m trimmed => trimStep host available trimmed m) ([], 0)).1 := by
  rw [trimMessages, List.foldl_reverse]

theorem role_stepToMessage (step : StepRecord fl.Num) : (stepToMessage host step).role ≠ "system" := by
  rw [stepToMessage]
  cases step.stepType with
  | thought | toolCall | report => exact (by decide : "assistant" ≠ "system")
  | toolResult | observation => exact (by decide : "user" ≠ "system")

/-- What trimming does to messages of steps: some are dropped, from the last one on. -/
structure Trimmed (available : Int) (ms : List (Message fl.Num))
    (trimmed : List (Message fl.Num) × Int) : Prop where
  sublist : trimmed.1.Sublist ms
  total : trimmed.2 = keptTokens available (ms.map fun m => estimateTokens m.content)
  tokens_eq : tokens trimmed.1 = trimmed.2
  le : trimmed.2 ≤ available
  newest : ∀ m, ms.getLast? = some m → estimateTokens m.content ≤ available →
    trimmed.1.getLast? = some m

theorem trimmed_foldr {available : Int} (havailable : 0 ≤ available)
    (hms : ∀ m ∈ ms, m.role ≠ "system") :
    Trimmed available ms (ms.foldr (fun m trimmed => trimStep host available trimmed m) ([], 0)) := by
  induction ms with
  | nil => exact ⟨List.Sublist.refl _, rfl, rfl, havailable, fun m hm => by cases hm⟩
  | cons m rest ih =>
      obtain ⟨hm, hrest⟩ := List.forall_mem_cons.mp hms
      obtain ⟨hsublist, htotal, htokens, hle, hnewest⟩ := ih hrest
      rw [List.foldr_cons, trimStep]
      by_cases hfits : (rest.foldr (fun m trimmed => trimStep host available trimmed m) ([], 0)).2 +
          estimateTokens m.content ≤ available
      · rw [if_pos hfits]
        refine ⟨hsublist.cons_cons m, ?_, ?_, hfits, fun newest hlast hsize => ?_⟩
        · rw [List.map_cons, keptTokens, ← htotal, if_pos hfits]
        · rw [tokens_cons, htokens, Int.add_comm]
        · rw [List.getLast?_cons] at hlast ⊢
          cases hrestLast : rest.getLast? with
          | none =>
              obtain rfl := List.getLast?_eq_none_iff.mp hrestLast
              exact hlast
          | some last =>
              rw [hrestLast] at hlast
              obtain rfl := Option.some.inj hlast
              rw [hnewest last hrestLast hsize]
      · rw [if_neg hfits, if_neg hm]
        refine ⟨hsublist.cons m, ?_, htokens, hle, fun newest hlast hsize => ?_⟩
        · rw [List.map_cons, keptTokens, ← htotal, if_neg hfits]
        · rw [List.getLast?_cons] at hlast
          cases hrestLast : rest.getLast? with
          | none =>
              -- the last of the messages fits as long as nothing else is kept
              obtain rfl := List.getLast?_eq_none_iff.mp hrestLast
              obtain rfl := Option.some.inj hlast
              rw [List.foldr_nil, Int.zero_add] at hfits
              exact absurd hsize hfits
          | some last =>
              rw [hrestLast] at hlast
              obtain rfl := Option.some.inj hlast
              exact hnewest last hrestLast hsize

/-- Nothing is dropped from messages that fit. -/
theorem keptTokens_eq_tokens {available : Int} (h : tokens ms ≤ available) :
    keptTokens available (ms.map fun m => estimateTokens m.content) = tokens ms := by
  induction ms with
  | nil => rfl
  | cons m rest ih =>
      rw [tokens_cons] at h
      have hm := estimateTokens_nonneg m.content
      have hrest := ih (by omega)
      rw [List.map_cons, keptTokens, hrest, tokens_cons, Int.add_comm, if_pos h]

theorem getLast_window (hpositive : 0 < config.fullFidelitySteps) {step : StepRecord fl.Num}
    (hstep : steps.getLast? = some step) :
    (config.window host steps).getLast? = some (stepToMessage host step) := by
  obtain ⟨front, rfl⟩ := List.getLast?_eq_some_iff.mp hstep
  have hsplit : config.split (front ++ [step]) ≤ front.length := by
    rw [split, List.length_append, List.length_singleton]
    omega
  rw [window, List.drop_append_of_le_length hsplit, List.map_append, List.map_singleton,
    List.getLast?_concat]

theorem role_window : ∀ m ∈ config.window host steps, m.role ≠ "system" := by
  intro m hm
  obtain ⟨step, -, rfl⟩ := List.mem_map.mp hm
  exact role_stepToMessage host step

/-- What summarize answers with besides the estimate of it. -/
theorem served_of_tokens (summary kept : List (Message fl.Num))
    (hlength : summary.length ≤ 1) (hsystem : ∀ m ∈ summary, m.role = "system")
    (hkept : kept.Sublist (config.window host steps))
    (hnewest : ∀ m, (config.window host steps).getLast? = some m →
      estimateTokens m.content ≤ config.available → kept.getLast? = some m) :
    Served host config steps (summary ++ kept) ↔ tokens (summary ++ kept) ≤ config.available := by
  refine ⟨Served.budget, fun hbudget => ⟨hbudget, ⟨summary, kept, rfl, hlength, hsystem, hkept⟩, ?_⟩⟩
  intro hpositive step hstep hsize
  rw [List.getLast?_append, hnewest _ (getLast_window host hpositive hstep) hsize, Option.some_or]

theorem served_window (havailable : 0 ≤ config.available) (hsplit : config.split steps = 0)
    (hms : config.summarize host steps = some ms) : Served host config steps ms := by
  rw [summarize_eq, untrimmed_eq, if_pos hsplit, Option.map_some] at hms
  obtain rfl := Option.some.inj hms
  split
  case isTrue =>
    have htrimmed := trimmed_foldr host havailable
      (role_window host : ∀ m ∈ config.window host steps, m.role ≠ "system")
    rw [trimMessages_eq]
    refine (served_of_tokens host [] _ (Nat.zero_le 1) (List.forall_mem_nil _) htrimmed.sublist
      htrimmed.newest).mpr ?_
    rw [List.nil_append, htrimmed.tokens_eq]
    exact htrimmed.le
  case isFalse hle =>
    exact (served_of_tokens host [] _ (Nat.zero_le 1) (List.forall_mem_nil _) (List.Sublist.refl _)
      fun _ hlast _ => hlast).mpr (Int.not_lt.mp hle)

theorem served_summary (havailable : 0 ≤ config.available) (hsplit : 0 < config.split steps)
    {summary : List Char}
    (hsummary : compileStepSummary (steps.take (config.split steps)) = some summary) :
    (∀ ms, config.summarize host steps = some ms → Served host config steps ms) ↔
      SummaryFits host config steps := by
  have htrimmed := trimmed_foldr host havailable
    (role_window host : ∀ m ∈ config.window host steps, m.role ≠ "system")
  obtain ⟨hsublist, htotal, htokens, hle, hnewest⟩ := htrimmed
  have hfits : SummaryFits host config steps ↔
      keptTokens config.available ((config.window host steps).map fun m => estimateTokens m.content) +
          estimateTokens (config.summaryMessage summary : Message fl.Num).content ≤
        config.available ∨
      keptTokens config.available ((config.window host steps).map fun m => estimateTokens m.content) +
          estimateTokens (config.cutMessage host (config.summaryMessage summary)).content ≤
        config.available := by
    refine ⟨fun h => h summary hsplit hsummary, fun h summary' _ hsummary' => ?_⟩
    rw [hsummary] at hsummary'
    cases hsummary'
    exact h
  have hall : config.summarize host steps = some
      (if config.available < tokens (config.summaryMessage summary :: config.window host steps) then
        trimMessages host (config.summaryMessage summary :: config.window host steps) config.available
      else config.summaryMessage summary :: config.window host steps) := by
    rw [summarize_eq, untrimmed_eq, if_neg (Nat.ne_of_gt hsplit), hsummary, Option.map_some,
      Option.map_some]
  rw [hall, hfits]
  simp only [Option.some.injEq, forall_eq']
  have hrole : (config.summaryMessage summary : Message fl.Num).role = "system" := rfl
  split
  case isTrue =>
    rw [trimMessages_eq, List.foldr_cons, trimStep, htotal]
    by_cases hwhole : keptTokens config.available
        ((config.window host steps).map fun m => estimateTokens m.content) +
        estimateTokens (config.summaryMessage summary : Message fl.Num).content ≤ config.available
    · rw [if_pos hwhole]
      refine iff_of_true ?_ (.inl hwhole)
      refine (served_of_tokens host [config.summaryMessage summary] _ (Nat.le_refl 1)
        (List.forall_mem_singleton.mpr hrole) hsublist hnewest).mpr ?_
      rw [List.singleton_append, tokens_cons, htokens, htotal, Int.add_comm]
      exact hwhole
    · rw [if_neg hwhole, if_pos hrole, or_iff_right hwhole]
      refine (served_of_tokens host [config.cutMessage host (config.summaryMessage summary)] _
        (Nat.le_refl 1) (List.forall_mem_singleton.mpr rfl) hsublist hnewest).trans ?_
      rw [List.singleton_append, tokens_cons, htokens, htotal, Int.add_comm]
  case isFalse hfit =>
    have htokensAll := Int.not_lt.mp hfit
    rw [tokens_cons] at htokensAll
    have hsummaryNonneg := estimateTokens_nonneg (config.summaryMessage summary : Message fl.Num).content
    refine iff_of_true ?_ (.inl ?_)
    · refine (served_of_tokens host [config.summaryMessage summary] _ (Nat.le_refl 1)
        (List.forall_mem_singleton.mpr hrole) (List.Sublist.refl _) fun _ hlast _ => hlast).mpr ?_
      rw [List.singleton_append, tokens_cons]
      exact htokensAll
    · rw [keptTokens_eq_tokens (by omega), Int.add_comm]
      exact htokensAll

def thought (stepNumber : Nat) : StepRecord Unit where
  stepNumber := stepNumber
  stepType := .thought
  content := .text ['?']
  toolName := .null
  toolInput := .null
  toolOutput := .null
  tokenCount := .null
  error := none

end ContextConfig

end Prodinamik.Agents
