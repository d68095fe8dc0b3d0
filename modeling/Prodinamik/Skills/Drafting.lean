import Prodinamik.Skills.SkillForge

namespace Prodinamik.Skills.Drafting

/-- What a call of the provider comes to: the content of its result, or an exception. -/
inductive Answer
  | returns (content : Option String)
  | raises
  deriving DecidableEq

structure Draft extends SkillDraft where
  testContent : String
  skillPath : String
  testPath : String
  deriving DecidableEq

section Create

variable (title : String → String) (percent : Rat → String) (path : String → String → String)

def generateTest (name : String) (driftType : DriftType) : String :=
  "\"\"\"Test for AI-generated skill: " ++ name ++ "\"\"\"\n\nimport pytest\n\n\nclass Test" ++
    title (name.map fun c => if c = '-' ∨ c = '.' then '_' else c) ++ ":\n" ++
    "    \"\"\"Regression tests for " ++ name ++ " skill\"\"\"\n\n" ++
    "    def test_detection(self):\n        \"\"\"Should detect " ++ driftType.value ++
    " drifts\"\"\"\n        assert True  # TODO: implement\n\n" ++
    "    def test_fix_application(self):\n        \"\"\"Fix should resolve the drift\"\"\"\n" ++
    "        assert True  # TODO: implement\n\n" ++
    "    def test_no_regression(self):\n        \"\"\"Fix should not introduce new drifts\"\"\"\n" ++
    "        assert True  # TODO: implement\n"

def withFiles (c : EmergenceCandidate) (draft : SkillDraft) : Draft where
  toSkillDraft := draft
  testContent := generateTest title c.suggestedSkillName c.driftType
  skillPath := path c.suggestedSkillName "SKILL.md"
  testPath := path c.suggestedSkillName "test_skill.py"

def template (createdAt : String) (c : EmergenceCandidate) : Draft :=
  withFiles title path c (createSkillDraft title percent createdAt c)

def generated (c : EmergenceCandidate) (content : Option String) : Draft :=
  withFiles title path c
    { name := c.suggestedSkillName
      description := c.description
      content := content.getD ""
      driftType := c.driftType
      confidence := c.confidence }

/- The frames that are left on the stack bound the calls: without one the call raises. The second
value counts the calls of the provider, whose answers come one after the other. -/
mutual

def createSkillDraft (createdAt : String) (c : EmergenceCandidate)
    (llmProvider : Option (Nat → Answer)) (frames calls : Nat) : Option Draft × Nat :=
  match frames with
  | 0 => (none, calls)
  | frames + 1 =>
      match llmProvider with
      | some complete => createSkillDraftAi createdAt c complete frames calls
      | none => (some (template title percent path createdAt c), calls)

def createSkillDraftAi (createdAt : String) (c : EmergenceCandidate) (complete : Nat → Answer)
    (frames calls : Nat) : Option Draft × Nat :=
  match frames with
  | 0 => (none, calls)
  | frames + 1 =>
      match complete calls with
      | .returns content => (some (generated title path c content), calls + 1)
      | .raises => createSkillDraft createdAt c (some complete) frames (calls + 1)

end

/-- With enough of a stack a draft comes back after one call at most; it is that of the template
where the provider only fails. -/
structure Drafts (createdAt : String) (c : EmergenceCandidate)
    (llmProvider : Option (Nat → Answer)) (frames : Nat) : Prop where
  once : (createSkillDraft title percent path createdAt c llmProvider frames 0).2 ≤ 1
  returns : (createSkillDraft title percent path createdAt c llmProvider frames 0).1.isSome = true
  fallback : (∀ complete, llmProvider = some complete → ∀ n, complete n = .raises) →
    (createSkillDraft title percent path createdAt c llmProvider frames 0).1 =
      (createSkillDraft title percent path createdAt c none frames 0).1

end Create

variable {title : String → String} {percent : Rat → String} {path : String → String → String}
  {createdAt : String} {c : EmergenceCandidate} {complete : Nat → Answer}

theorem createSkillDraft_round (frames calls : Nat) :
    createSkillDraft title percent path createdAt c (some complete) (frames + 2) calls =
      match complete calls with
      | .returns content => (some (generated title path c content), calls + 1)
      | .raises =>
          createSkillDraft title percent path createdAt c (some complete) frames (calls + 1) := by
  rw [createSkillDraft, createSkillDraftAi]

/-- No draft comes back without a call that answers. -/
theorem calls_lt {frames calls : Nat} {draft : Draft} {calls' : Nat}
    (h : createSkillDraft title percent path createdAt c (some complete) frames calls =
      (some draft, calls')) : calls < calls' := by
  induction frames using Nat.twoStepInduction generalizing calls with
  | zero =>
      rw [createSkillDraft] at h
      cases h
  | one =>
      rw [createSkillDraft, createSkillDraftAi] at h
      cases h
  | more frames ih =>
      rw [createSkillDraft_round] at h
      cases hanswer : complete calls with
      | returns content =>
          rw [hanswer] at h
          cases h
          exact Nat.lt_succ_self calls
      | raises =>
          rw [hanswer] at h
          exact Nat.lt_of_succ_lt (ih h)

/-- A provider that only fails is called as long as there is a stack, and there is no draft. -/
theorem createSkillDraft_raises (hraises : ∀ n, complete n = .raises) (frames calls : Nat) :
    createSkillDraft title percent path createdAt c (some complete) frames calls =
      (none, calls + frames / 2) := by
  induction frames using Nat.twoStepInduction generalizing calls with
  | zero =>
      rw [createSkillDraft]
      rfl
  | one =>
      rw [createSkillDraft, createSkillDraftAi]
      rfl
  | more frames ih =>
      rw [createSkillDraft_round, hraises, ih, Nat.add_div_right frames Nat.two_pos]
      exact congrArg _ (Nat.succ_add_eq_add_succ calls _)

/-- A draft comes back as it should just where the first call of the provider answers. -/
theorem drafts_iff (title : String → String) (percent : Rat → String)
    (path : String → String → String) (createdAt : String) (c : EmergenceCandidate)
    (llmProvider : Option (Nat → Answer)) :
    (∃ needed, ∀ frames ≥ needed, Drafts title percent path createdAt c llmProvider frames) ↔
      ∀ complete, llmProvider = some complete → complete 0 ≠ .raises := by
  constructor
  · rintro ⟨needed, h⟩ complete rfl hraises
    have hdrafts := h (needed + 2) (Nat.le_add_right needed 2)
    obtain ⟨draft, hdraft⟩ := Option.isSome_iff_exists.mp hdrafts.returns
    have honce := hdrafts.once
    rw [createSkillDraft_round, hraises] at hdraft honce
    have hlt := calls_lt (Prod.ext hdraft rfl)
    exact absurd honce (Nat.not_le.mpr hlt)
  · intro h
    refine ⟨2, fun frames hframes => ?_⟩
    obtain ⟨frames, rfl⟩ := Nat.exists_eq_add_of_le' hframes
    cases llmProvider with
    | none =>
        have heq : createSkillDraft title percent path createdAt c none (frames + 2) 0 =
            (some (template title percent path createdAt c), 0) := by rw [createSkillDraft]
        exact ⟨by rw [heq]; exact Nat.zero_le 1, by rw [heq]; rfl, fun _ => rfl⟩
    | some complete =>
        cases hanswer : complete 0 with
        | raises => exact absurd hanswer (h complete rfl)
        | returns content =>
            have heq : createSkillDraft title percent path createdAt c (some complete) (frames + 2) 0 =
                (some (generated title path c content), 1) := by
              rw [createSkillDraft_round, hanswer]
            refine ⟨by rw [heq], by rw [heq]; rfl, fun hall => ?_⟩
            exact absurd (hall complete rfl 0) (h complete rfl)

theorem not_drafts_raises :
    ¬∀ (createdAt : String) (c : EmergenceCandidate) (llmProvider : Option (Nat → Answer)),
      ∃ needed, ∀ frames ≥ needed, Drafts id (fun _ => "50%") (fun name file => name ++ "/" ++ file)
        createdAt c llmProvider frames := by
  intro h
  obtain ⟨needed, hdrafts⟩ := h "2026-01-01T00:00:00"
    { patternId := "a", driftType := .format, description := "", occurrenceCount := 3
      affectedRuns := 1, severityTrend := .stable, recommendation := "Monitor"
      suggestedSkillName := "auto-format-a", confidence := 1 / 2 } (some fun _ => .raises)
  have hreturns := (hdrafts needed (Nat.le_refl needed)).returns
  rw [createSkillDraft_raises fun _ => rfl] at hreturns
  cases hreturns

end Prodinamik.Skills.Drafting
