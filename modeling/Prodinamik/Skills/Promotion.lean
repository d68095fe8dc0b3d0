import Prodinamik.Skills.SkillForge

namespace Prodinamik.Skills

open Lib Lib.Replace Lib.Run

inductive Tier
  | t2
  | t3
  deriving DecidableEq, Repr

/-- What a SKILL.md says of its tier. -/
def tier (content : String) : Option Tier :=
  if 0 < occurrences t3ValidatorMarker.toList content.toList then some .t3
  else if 0 < occurrences t2ValidatorMarker.toList content.toList then some .t2
  else none

def autoFixSections (content : String) : Nat := occurrences autoFixHeading.toList content.toList

/-- An emergence pass or a result. -/
inductive SkillCall
  | checkEmergence (candidates : List EmergenceCandidate) (disk : String → Disk)
      (createdAt : String) (now : Int)
  | recordFixResult (skillName : String) (success : Bool) (now : Int)

/-- A forge with the number of successful results of each skill. -/
structure Watched (φ : Type) where
  forge : AutoSkillForge φ
  successes : String → Nat := fun _ => 0

namespace AutoSkillForge

variable {φ : Type}

/-- A save is what dates the stats of a skill. -/
def Saved (s : AutoSkillForge φ) (n : String) : Prop :=
  ∃ stats, s.fixStats n = some stats ∧ stats.createdAt.isSome

def successCount (s : AutoSkillForge φ) (n : String) : Nat :=
  (s.fixStats n).elim 0 SkillFixStats.successCount

end AutoSkillForge

section Promotion

variable {φ : Type} [DecidableEq φ] (skillPath : String → φ) (title : String → String)
  (percent : Rat → String)

namespace Watched

def call (w : Watched φ) : SkillCall → Watched φ
  | .checkEmergence candidates disk createdAt now =>
      { w with
        forge := w.forge.checkEmergence skillPath title percent candidates disk createdAt now }
  | .recordFixResult n success now =>
      { forge := w.forge.recordFixResult skillPath n success now
        successes := if success then Function.update w.successes n (w.successes n + 1)
          else w.successes }

/-- T3 until the tenth success and T2, with its section, from then on. -/
def Permanent (w : Watched φ) : Prop :=
  ∀ n, w.forge.Saved n → ∃ content, w.forge.files (skillPath n) = some content ∧
    if 10 ≤ w.successes n then tier content = some .t2 ∧ autoFixSections content = 1
    else tier content = some .t3

/-- A pass drafts only skills without a success, and no text of theirs has the
heading; a saved skill gets no result after its tenth success. -/
def Settled (names : Set String) (w : Watched φ) : SkillCall → Prop
  | .checkEmergence candidates _ createdAt _ =>
      ∀ draft ∈ generateSkills title percent (13 / 20) createdAt candidates,
        draft.name ∈ names ∧ w.forge.successCount draft.name = 0 ∧
          autoFixSections draft.content = 0
  | .recordFixResult n _ _ =>
      n ∈ names ∧ (w.forge.Saved n → w.forge.successCount n < promotionThreshold)

end Watched

end Promotion

section Text

theorem tier_of_t3 {content : String} (h : t3ValidatorMarker.toList <:+: content.toList) :
    tier content = some .t3 := if_pos (occurrences_pos h)

theorem tier_createSkillDraft (title : String → String) (percent : Rat → String)
    (createdAt : String) (c : EmergenceCandidate) :
    tier (createSkillDraft title percent createdAt c).content = some .t3 := by
  refine tier_of_t3 ?_
  rw [createSkillDraft, String.toList_append, String.toList_append]
  exact ⟨_, _, rfl⟩

theorem infix_of_tier_t3 {content : String} (h : tier content = some .t3) :
    t3ValidatorMarker.toList <:+: content.toList := by
  rw [tier] at h
  split at h
  case isTrue hpos => exact infix_of_occurrences_pos hpos
  case isFalse => split at h <;> cases h

/-- The section is cut off from the text before it by a line end. -/
theorem occurrences_promoted {p : List Char} (hp : p ≠ []) (hn : '\n' ∉ p) (content : String) :
    occurrences p (promoted content).toList =
      occurrences p (replaceAll t3ValidatorMarker.toList t2ValidatorMarker.toList
        (Text.universalNewlines content.toList)) + occurrences p autoFixSection.toList := by
  have hsection : autoFixSection.toList = '\n' :: autoFixSection.toList.tail := by decide
  rw [promoted, String.toList_append, String.toList_ofList, hsection,
    occurrences_append_cons hp hn]
  have hcut := occurrences_append_cons hp hn [] autoFixSection.toList.tail
  rw [List.nil_append, occurrences, if_neg hp, Nat.zero_add] at hcut
  rw [hcut]

theorem tier_promoted {content : String} (h : tier content = some .t3) :
    tier (promoted content) = some .t2 := by
  have hinfix := infix_of_tier_t3 h
  have hread : t3ValidatorMarker.toList <:+: Text.universalNewlines content.toList := by
    refine infix_of_occurrences_pos ?_
    rw [occurrences_universalNewlines (by decide) (by decide) (by decide)]
    exact occurrences_pos hinfix
  have hnone : occurrences t3ValidatorMarker.toList (promoted content).toList = 0 := by
    rw [occurrences_promoted (by decide) (by decide), Nat.add_eq_zero_iff]
    refine ⟨occurrences_eq_zero_iff.mpr ?_, by decide⟩
    exact not_infix_replaceAll (by decide) (by decide) (by decide) (by decide) _
  have hsome : 0 < occurrences t2ValidatorMarker.toList (promoted content).toList := by
    rw [occurrences_promoted (by decide) (by decide)]
    exact Nat.add_pos_left (occurrences_pos (new_infix_replaceAll (by decide +kernel) hread)) _
  rw [tier, if_neg (by omega), if_pos hsome]

theorem autoFixSections_promoted (content : String) :
    autoFixSections (promoted content) = autoFixSections content + 1 := by
  let f : Char → Char := fun x => if x = '3' then '2' else x
  have hdigits : autoFixHeading.toList.all (fun c => decide (c ≠ '2' ∧ c ≠ '3')) = true := by
    decide +kernel
  have hf : ∀ c ∈ autoFixHeading.toList, ∀ x : Char, f x = f c ↔ x = c := by
    intro c hc x
    obtain ⟨h2, h3⟩ := of_decide_eq_true (List.all_eq_true.mp hdigits c hc)
    change (if x = '3' then '2' else x) = (if c = '3' then '2' else c) ↔ x = c
    rw [if_neg h3]
    by_cases hx : x = '3'
    · rw [if_pos hx, hx]
      exact iff_of_false (Ne.symm h2) (Ne.symm h3)
    · rw [if_neg hx]
  have hreplace : (replaceAll t3ValidatorMarker.toList t2ValidatorMarker.toList
      (Text.universalNewlines content.toList)).map f =
      (Text.universalNewlines content.toList).map f := map_replaceAll (by decide) (by decide) _
  have hone : occurrences autoFixHeading.toList autoFixSection.toList = 1 := by decide
  rw [autoFixSections, occurrences_promoted (by decide) (by decide), hone, ← occurrences_map hf,
    hreplace, occurrences_map hf, occurrences_universalNewlines (by decide) (by decide) (by decide),
    autoFixSections]

end Text

namespace AutoSkillForge

variable {φ : Type} [DecidableEq φ] {skillPath : String → φ} {s : AutoSkillForge φ}

/-- What every saved skill's file says, by the skill's own count. -/
def Counted (skillPath : String → φ) (names : Set String) (s : AutoSkillForge φ) : Prop :=
  ∀ n, s.Saved n → n ∈ names ∧ ∃ content, s.files (skillPath n) = some content ∧
    if 10 ≤ s.successCount n then tier content = some .t2 ∧ autoFixSections content = 1
    else tier content = some .t3 ∧ autoFixSections content = 0

theorem successCount_saveSkill {draft : SkillDraft} (hcount : s.successCount draft.name = 0)
    (disk : Disk) (now : Int) (n : String) :
    (s.saveSkill skillPath disk now draft).1.successCount n = s.successCount n := by
  rw [saveSkill]
  split
  case isFalse => rfl
  case isTrue =>
    cases disk with
    | refuses => rfl
    | skillOnly => rfl
    | writes =>
        by_cases hn : n = draft.name
        · subst hn
          rw [hcount]
          simp [successCount]
        · simp [successCount, Function.update_of_ne hn]

theorem Counted.saveSkill {names : Set String} (hpath : Set.InjOn skillPath names)
    (h : s.Counted skillPath names) {draft : SkillDraft} (hname : draft.name ∈ names)
    (hcount : s.successCount draft.name = 0) (htier : tier draft.content = some .t3)
    (hplain : autoFixSections draft.content = 0) (disk : Disk) (now : Int) :
    (s.saveSkill skillPath disk now draft).1.Counted skillPath names := by
  have hfile : ∀ n ∈ names, (∃ content, s.files (skillPath n) = some content ∧
      if 10 ≤ s.successCount n then tier content = some .t2 ∧ autoFixSections content = 1
      else tier content = some .t3 ∧ autoFixSections content = 0) ∨ n = draft.name →
      ∃ content, Function.update s.files (skillPath draft.name) (some draft.content) (skillPath n) =
        some content ∧
        if 10 ≤ s.successCount n then tier content = some .t2 ∧ autoFixSections content = 1
        else tier content = some .t3 ∧ autoFixSections content = 0 := by
    intro n hn hor
    by_cases hsame : n = draft.name
    · subst hsame
      refine ⟨draft.content, Function.update_self .., ?_⟩
      rw [if_neg (by omega)]
      exact ⟨htier, hplain⟩
    · have hne : skillPath n ≠ skillPath draft.name := fun he => hsame (hpath hn hname he)
      rw [Function.update_of_ne hne]
      exact hor.resolve_right hsame
  intro n hsaved
  rw [successCount_saveSkill hcount]
  revert hsaved
  rw [AutoSkillForge.saveSkill]
  split
  case isFalse => exact h n
  case isTrue =>
    cases disk with
    | refuses => exact h n
    | skillOnly =>
        intro hsaved
        obtain ⟨hn, hold⟩ := h n hsaved
        exact ⟨hn, hfile n hn (.inl hold)⟩
    | writes =>
        rintro ⟨stats, hstats, hdate⟩
        by_cases hsame : n = draft.name
        · exact ⟨hsame ▸ hname, hfile n (hsame ▸ hname) (.inr hsame)⟩
        · simp only [Function.update_of_ne hsame] at hstats
          obtain ⟨hn, hold⟩ := h n ⟨stats, hstats, hdate⟩
          exact ⟨hn, hfile n hn (.inl hold)⟩

theorem successCount_checkEmergence {title : String → String} {percent : Rat → String}
    {candidates : List EmergenceCandidate} {disk : String → Disk} {createdAt : String} {now : Int}
    (hcount : ∀ draft ∈ generateSkills title percent (13 / 20) createdAt candidates,
      s.successCount draft.name = 0) (n : String) :
    (s.checkEmergence skillPath title percent candidates disk createdAt now).successCount n =
      s.successCount n := by
  rw [checkEmergence]
  revert hcount
  generalize generateSkills title percent (13 / 20) createdAt candidates = drafts
  intro hcount
  induction drafts generalizing s with
  | nil => rfl
  | cons draft drafts ih =>
      have hfirst : ∀ m, (s.saveSkill skillPath (disk draft.name) now draft).1.successCount m =
          s.successCount m := successCount_saveSkill (hcount draft List.mem_cons_self) _ now
      rw [List.foldl_cons, ih, hfirst]
      intro d hd
      rw [hfirst]
      exact hcount d (List.mem_cons_of_mem _ hd)

theorem Counted.checkEmergence {names : Set String} (hpath : Set.InjOn skillPath names)
    (h : s.Counted skillPath names) {title : String → String} {percent : Rat → String}
    {candidates : List EmergenceCandidate} {createdAt : String}
    (hdrafts : ∀ draft ∈ generateSkills title percent (13 / 20) createdAt candidates,
      draft.name ∈ names ∧ s.successCount draft.name = 0 ∧ autoFixSections draft.content = 0)
    (disk : String → Disk) (now : Int) :
    (s.checkEmergence skillPath title percent candidates disk createdAt now).Counted
      skillPath names := by
  have htier : ∀ draft ∈ generateSkills title percent (13 / 20) createdAt candidates,
      tier draft.content = some .t3 := by
    intro draft hdraft
    obtain ⟨c, -, rfl⟩ := List.mem_map.mp hdraft
    exact tier_createSkillDraft title percent createdAt c
  rw [AutoSkillForge.checkEmergence]
  revert hdrafts htier
  generalize generateSkills title percent (13 / 20) createdAt candidates = drafts
  intro hdrafts htier
  induction drafts generalizing s with
  | nil => exact h
  | cons draft drafts ih =>
      obtain ⟨hname, hcount, hplain⟩ := hdrafts draft List.mem_cons_self
      rw [List.foldl_cons]
      refine ih (h.saveSkill hpath hname hcount (htier draft List.mem_cons_self) hplain _ now)
        (fun d hd => ?_) fun d hd => htier d (List.mem_cons_of_mem _ hd)
      rw [successCount_saveSkill hcount]
      exact hdrafts d (List.mem_cons_of_mem _ hd)

theorem fixStats_promoteSkill (name : String) :
    (s.promoteSkill skillPath name).fixStats = s.fixStats := by
  rw [promoteSkill]
  split <;> rfl

theorem files_promoteSkill (name : String) :
    (s.promoteSkill skillPath name).files =
      Function.update s.files (skillPath name) ((s.files (skillPath name)).map promoted) := by
  rw [promoteSkill]
  split
  case h_1 h => rw [h, Option.map_none, ← h, Function.update_eq_self]
  case h_2 content h => rw [h, Option.map_some]

/-- The stats that a result leaves to its skill. -/
def nextStats (s : AutoSkillForge φ) (name : String) (success : Bool) (now : Int) :
    SkillFixStats :=
  { (s.fixStats name).getD { skillName := name } with
    timesUsed := ((s.fixStats name).getD { skillName := name }).timesUsed + 1
    successCount := if success then ((s.fixStats name).getD { skillName := name }).successCount + 1
      else ((s.fixStats name).getD { skillName := name }).successCount
    failureCount := if success then ((s.fixStats name).getD { skillName := name }).failureCount
      else ((s.fixStats name).getD { skillName := name }).failureCount + 1
    lastUsed := some now }

omit [DecidableEq φ] in
theorem successCount_nextStats (name : String) (success : Bool) (now : Int) :
    (s.nextStats name success now).successCount = s.successCount name + success.toNat := by
  rw [nextStats, successCount]
  cases s.fixStats name <;> cases success <;> rfl

theorem fixStats_recordFixResult (name : String) (success : Bool) (now : Int) :
    (s.recordFixResult skillPath name success now).fixStats =
      Function.update s.fixStats name (some (s.nextStats name success now)) := by
  have hresult : s.recordFixResult skillPath name success now =
      if (s.nextStats name success now).isPromotable then
        { s with
          fixStats := Function.update s.fixStats name
            (some (s.nextStats name success now)) }.promoteSkill skillPath name
      else
        { s with
          fixStats := Function.update s.fixStats name (some (s.nextStats name success now)) } := rfl
  rw [hresult]
  split
  · rw [fixStats_promoteSkill]
  · rfl

theorem files_recordFixResult (name : String) (success : Bool) (now : Int) :
    (s.recordFixResult skillPath name success now).files =
      if 10 ≤ s.successCount name + success.toNat then
        Function.update s.files (skillPath name) ((s.files (skillPath name)).map promoted)
      else s.files := by
  have hpromotable : (s.nextStats name success now).isPromotable =
      decide (10 ≤ s.successCount name + success.toNat) := by
    rw [SkillFixStats.isPromotable, successCount_nextStats]
    rfl
  rw [recordFixResult]
  change (if (s.nextStats name success now).isPromotable then _ else _ : AutoSkillForge φ).files = _
  rw [hpromotable]
  by_cases h : 10 ≤ s.successCount name + success.toNat
  · rw [if_pos (decide_eq_true h), if_pos h, files_promoteSkill]
  · rw [if_neg (by simpa using h), if_neg h]

theorem successCount_recordFixResult (name : String) (success : Bool) (now : Int) (n : String) :
    (s.recordFixResult skillPath name success now).successCount n =
      if n = name then s.successCount name + success.toNat else s.successCount n := by
  rw [successCount, fixStats_recordFixResult]
  by_cases hn : n = name
  · subst hn
    rw [Function.update_self, if_pos rfl]
    exact successCount_nextStats n success now
  · rw [Function.update_of_ne hn, if_neg hn, successCount]

theorem saved_of_recordFixResult {name : String} {success : Bool} {now : Int} {n : String}
    (h : (s.recordFixResult skillPath name success now).Saved n) : s.Saved n := by
  obtain ⟨stats, hstats, hdate⟩ := h
  rw [fixStats_recordFixResult] at hstats
  by_cases hn : n = name
  · subst hn
    rw [Function.update_self] at hstats
    cases hstats
    cases hold : s.fixStats n with
    | none => simp [nextStats, hold] at hdate
    | some old => exact ⟨old, hold, by simpa [nextStats, hold] using hdate⟩
  · rw [Function.update_of_ne hn] at hstats
    exact ⟨stats, hstats, hdate⟩

theorem Counted.recordFixResult {names : Set String} (hpath : Set.InjOn skillPath names)
    (h : s.Counted skillPath names) {name : String} (hname : name ∈ names)
    (hfew : s.Saved name → s.successCount name < promotionThreshold) (success : Bool) (now : Int) :
    (s.recordFixResult skillPath name success now).Counted skillPath names := by
  intro n hafter
  have hsaved := saved_of_recordFixResult hafter
  obtain ⟨hn, content, hcontent, hsays⟩ := h n hsaved
  refine ⟨hn, ?_⟩
  rw [files_recordFixResult, successCount_recordFixResult]
  by_cases hsame : n = name
  · subst hsame
    have hlt : s.successCount n < 10 := hfew hsaved
    rw [if_neg (by omega)] at hsays
    rw [if_pos rfl]
    by_cases hten : 10 ≤ s.successCount n + success.toNat
    · rw [if_pos hten, Function.update_self, hcontent]
      refine ⟨promoted content, rfl, ?_⟩
      rw [if_pos hten, autoFixSections_promoted, hsays.2]
      exact ⟨tier_promoted hsays.1, rfl⟩
    · rw [if_neg hten]
      exact ⟨content, hcontent, by rwa [if_neg hten]⟩
  · have hne : skillPath n ≠ skillPath name := fun he => hsame (hpath hn hname he)
    rw [if_neg hsame]
    refine ⟨content, ?_, hsays⟩
    split
    · rw [Function.update_of_ne hne, hcontent]
    · exact hcontent

end AutoSkillForge

namespace Watched

variable {φ : Type} [DecidableEq φ]

/-- The counts are those of the forge itself. -/
def Right (skillPath : String → φ) (names : Set String) (w : Watched φ) : Prop :=
  w.forge.Counted skillPath names ∧ ∀ n, w.successes n = w.forge.successCount n

variable {skillPath : String → φ} {title : String → String} {percent : Rat → String}
  {names : Set String} {w : Watched φ}

theorem Right.call (hpath : Set.InjOn skillPath names) (h : w.Right skillPath names) (c : SkillCall)
    (hc : w.Settled title percent names c) :
    (w.call skillPath title percent c).Right skillPath names := by
  cases c with
  | checkEmergence candidates disk createdAt now =>
      refine ⟨h.1.checkEmergence hpath hc disk now, fun n => ?_⟩
      rw [Watched.call, AutoSkillForge.successCount_checkEmergence fun d hd => (hc d hd).2.1]
      exact h.2 n
  | recordFixResult name success now =>
      refine ⟨h.1.recordFixResult hpath hc.1 hc.2 success now, fun n => ?_⟩
      rw [Watched.call, AutoSkillForge.successCount_recordFixResult]
      by_cases hn : n = name
      · subst hn
        cases success <;> simp [h.2]
      · cases success <;> simp [h.2, hn]

omit [DecidableEq φ] in
theorem Right.permanent (h : w.Right skillPath names) : w.Permanent skillPath := by
  intro n hsaved
  obtain ⟨-, content, hcontent, hsays⟩ := h.1 n hsaved
  refine ⟨content, hcontent, ?_⟩
  rw [h.2]
  split
  case isTrue hten => rwa [if_pos hten] at hsays
  case isFalse hten =>
    rw [if_neg hten] at hsays
    exact hsays.1

/-- From a new forge over any files, a run of settled calls over names with files
of their own is permanent all along. -/
theorem promotion_permanent (skillPath : String → φ) (title : String → String)
    (percent : Rat → String) (names : Set String) (hpath : Set.InjOn skillPath names)
    (files : φ → Option String) (calls : List SkillCall)
    (hcalls : Steps (call skillPath title percent) (Settled title percent names)
      ⟨{ files := files }, fun _ => 0⟩ calls) :
    Always (call skillPath title percent) (Permanent skillPath)
      ⟨{ files := files }, fun _ => 0⟩ calls := by
  have hnew : Right skillPath names (⟨{ files := files }, fun _ => 0⟩ : Watched φ) := by
    refine ⟨fun n hsaved => ?_, fun n => rfl⟩
    obtain ⟨_, hstats, _⟩ := hsaved
    cases hstats
  exact (along_of_invariant (fun w c h hc => h.call hpath c hc) hnew hcalls).imp
    (fun w h => h.permanent) fun _ _ _ => trivial

/-- A skill that five drifts of one run suggest. -/
def missingHeader : EmergenceCandidate where
  patternId := "EM-format-0042"
  driftType := .format
  description := "missing header field"
  occurrenceCount := 5
  affectedRuns := 1
  severityTrend := .stable
  recommendation := "Create format validation skill to auto-fix 'missing header field' patterns"
  suggestedSkillName := "ai-format-missing-header-field"
  confidence := 719 / 1000

def headerTitle : String → String := fun _ => "Ai Format Missing Header Field"

def headerPercent : Rat → String := fun _ => "72%"

def missingHeaderDraft : SkillDraft :=
  createSkillDraft headerTitle headerPercent "2026-01-01" missingHeader

theorem autoFixSections_missingHeaderDraft : autoFixSections missingHeaderDraft.content = 0 := by
  generalize hn : autoFixSections missingHeaderDraft.content = n
  -- The pieces of the text are spelled out as characters before they are searched.
  delta autoFixSections missingHeaderDraft createSkillDraft frontmatterHead afterTier
    generateVerification generateFixSteps generateDetectionRules missingHeader headerTitle
    headerPercent DriftType.value TrendDirection.value at hn
  repeat rewrite [String.toList_append] at hn
  repeat rewrite [String.toList_ofList] at hn
  subst hn
  decide +kernel

theorem generateSkills_missingHeader :
    generateSkills headerTitle headerPercent (13 / 20) "2026-01-01" [missingHeader] =
      [missingHeaderDraft] := by
  rw [generateSkills, List.filter_cons, if_pos (by decide +kernel), List.filter_nil, List.map_cons,
    List.map_nil, missingHeaderDraft]

/-- An emergence pass that finds it. -/
def headerPass : SkillCall := .checkEmergence [missingHeader] (fun _ => .writes) "2026-01-01" 0

/-- A successful result of it. -/
def headerSuccess : SkillCall := .recordFixResult missingHeader.suggestedSkillName true 1

theorem forge_headerPass (w : Watched String) :
    (w.call id headerTitle headerPercent headerPass).forge =
      (w.forge.saveSkill id .writes 0 missingHeaderDraft).1 := by
  rw [headerPass, call, AutoSkillForge.checkEmergence, generateSkills_missingHeader]
  rfl

theorem saved_headerPass (w : Watched String) :
    (w.call id headerTitle headerPercent headerPass).forge.fixStats
        missingHeader.suggestedSkillName =
      some { skillName := missingHeader.suggestedSkillName, createdAt := some 0 } ∧
    (w.call id headerTitle headerPercent headerPass).forge.files
      missingHeader.suggestedSkillName = some missingHeaderDraft.content := by
  have hready : missingHeaderDraft.isReady = true := by decide +kernel
  rw [forge_headerPass, AutoSkillForge.saveSkill, if_pos hready]
  exact ⟨Function.update_self missingHeader.suggestedSkillName _ w.forge.fixStats,
    Function.update_self missingHeader.suggestedSkillName _ w.forge.files⟩

theorem steps_headerSuccess {k : Nat} {w : Watched String}
    (h : w.forge.successCount missingHeader.suggestedSkillName + k ≤ 10) :
    Steps (call id headerTitle headerPercent) (Settled headerTitle headerPercent Set.univ) w
      (List.replicate k headerSuccess) := by
  induction k generalizing w with
  | zero => trivial
  | succ k ih =>
      refine ⟨trivial, ⟨Set.mem_univ _, fun _ => ?_⟩, ih ?_⟩
      · rw [promotionThreshold]
        omega
      · rw [headerSuccess, call, AutoSkillForge.successCount_recordFixResult, if_pos rfl,
          Bool.toNat_true]
        omega

theorem successes_headerSuccess (k : Nat) (w : Watched String) :
    ((List.replicate k headerSuccess).foldl (call id headerTitle headerPercent) w).successes
      missingHeader.suggestedSkillName = w.successes missingHeader.suggestedSkillName + k := by
  induction k generalizing w with
  | zero => rfl
  | succ k ih =>
      have hone : (w.call id headerTitle headerPercent headerSuccess).successes
          missingHeader.suggestedSkillName = w.successes missingHeader.suggestedSkillName + 1 :=
        Function.update_self missingHeader.suggestedSkillName _ w.successes
      rw [List.replicate_succ, List.foldl_cons, ih, hone]
      omega

theorem promotion_permanent_header :
    Steps (call id headerTitle headerPercent) (Settled headerTitle headerPercent Set.univ)
        ⟨{ files := fun _ => none }, fun _ => 0⟩ (headerPass :: List.replicate 10 headerSuccess) ∧
      Always (call id headerTitle headerPercent) (Permanent id)
        ⟨{ files := fun _ => none }, fun _ => 0⟩ (headerPass :: List.replicate 10 headerSuccess) := by
  have hsteps : Steps (call id headerTitle headerPercent)
      (Settled headerTitle headerPercent Set.univ) ⟨{ files := fun _ => none }, fun _ => 0⟩
      (headerPass :: List.replicate 10 headerSuccess) := by
    refine ⟨trivial, fun draft hdraft => ?_, steps_headerSuccess ?_⟩
    · rw [generateSkills_missingHeader, List.mem_singleton] at hdraft
      subst hdraft
      exact ⟨Set.mem_univ _, rfl, autoFixSections_missingHeaderDraft⟩
    · rw [AutoSkillForge.successCount, (saved_headerPass _).1]
      exact Nat.le_refl 10
  exact ⟨hsteps, promotion_permanent id headerTitle headerPercent Set.univ
    (Function.injective_id.injOn) (fun _ => none) _ hsteps⟩

/-- The next emergence pass takes the promotion back. -/
theorem promotion_undone :
    ¬ Always (call id headerTitle headerPercent) (Permanent id)
      ⟨{ files := fun _ => none }, fun _ => 0⟩
      (headerPass :: List.replicate 10 headerSuccess ++ [headerPass]) := by
  intro h
  have hlast := h.last
  rw [List.foldl_append, List.foldl_cons, List.foldl_cons, List.foldl_nil] at hlast
  generalize hw : (List.replicate 10 headerSuccess).foldl (call id headerTitle headerPercent)
    (call id headerTitle headerPercent ⟨{ files := fun _ => none }, fun _ => 0⟩ headerPass) = w
    at hlast
  have hten : w.successes missingHeader.suggestedSkillName = 10 := by
    rw [← hw, successes_headerSuccess]
    rfl
  obtain ⟨hstats, hfile⟩ := saved_headerPass w
  obtain ⟨content, hcontent, hsays⟩ := hlast missingHeader.suggestedSkillName ⟨_, hstats, rfl⟩
  cases hfile.symm.trans hcontent
  rw [if_pos (by exact hten.ge)] at hsays
  have htier : tier missingHeaderDraft.content = some .t3 := tier_createSkillDraft ..
  rw [htier] at hsays
  exact absurd hsays.1 (by decide)

end Watched

end Prodinamik.Skills
