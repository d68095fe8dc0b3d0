import Mathlib.Data.Rat.Defs
import Mathlib.Data.Set.Function
import Prodinamik.Lib.Replace
import Prodinamik.Lib.Run

namespace Prodinamik.Skills

open Lib Lib.Replace Lib.Run

inductive DriftType
  | format
  | content
  | logic
  | hallucination
  | timeout
  | validation
  | stateTransition
  | performance
  | dependency
  | resource
  deriving DecidableEq, Repr

inductive TrendDirection
  | improving
  | stable
  | degrading
  deriving DecidableEq, Repr

def DriftType.value : DriftType → String
  | format => "format"
  | content => "content"
  | logic => "logic"
  | hallucination => "hallucination"
  | timeout => "timeout"
  | validation => "validation"
  | stateTransition => "state_transition"
  | performance => "performance"
  | dependency => "dependency"
  | resource => "resource"

theorem DriftType.value_injective : Function.Injective DriftType.value := by
  intro t u h
  cases t <;> cases u <;> first | rfl | exact absurd h (by decide)

def TrendDirection.value : TrendDirection → String
  | improving => "improving"
  | stable => "stable"
  | degrading => "degrading"

structure EmergenceCandidate where
  patternId : String
  driftType : DriftType
  description : String
  occurrenceCount : Nat
  affectedRuns : Nat
  severityTrend : TrendDirection
  recommendation : String
  suggestedSkillName : String
  confidence : Rat
  deriving DecidableEq, Repr

structure SkillDraft where
  name : String
  description : String
  content : String
  driftType : DriftType
  confidence : Rat
  deriving DecidableEq, Repr

def SkillDraft.isReady (d : SkillDraft) : Bool := d.confidence ≥ 13 / 20

structure SkillFixStats where
  skillName : String
  timesUsed : Nat := 0
  successCount : Nat := 0
  failureCount : Nat := 0
  createdAt : Option Int := none
  lastUsed : Option Int := none
  deriving DecidableEq, Repr

def t3ValidatorMarker : String := "tier: T3"

def t2ValidatorMarker : String := "tier: T2"

/-- Successful fixes before T3 becomes T2. -/
def promotionThreshold : Nat := 10

def SkillFixStats.isPromotable (s : SkillFixStats) : Bool := s.successCount ≥ promotionThreshold

def generateDetectionRules : DriftType → String
  | .format => "1. Check YAML frontmatter is valid\n2. Validate required fields present\n" ++
      "3. Run schema validation"
  | .content => "1. Scan for minimum content length\n2. Verify section headers match template\n" ++
      "3. Check for required keywords"
  | .logic => "1. Validate state transition rules\n" ++
      "2. Check precondition/postcondition consistency\n3. Verify idempotency"
  | .hallucination => "1. Cross-reference claims with source data\n" ++
      "2. Flag unverifiable statistics\n3. Run fact-check regex patterns"
  | .timeout => "1. Measure execution duration\n2. Compare with expected bounds\n" ++
      "3. Flag if >2x expected"
  | _ => "1. Detect anomalous pattern\n2. Log occurrence\n3. Alert operator"

def generateFixSteps (t : DriftType) (description : String) : String :=
  "### Manual Fix\n\n1. Identify the " ++ t.value ++ " issue in the run\n" ++
    "2. Apply correction for: " ++ String.ofList (description.toList.take 100) ++ "\n" ++
    "3. Re-run verification\n\n" ++
    match t with
    | .format | .content =>
        "### Auto-Fix (when promoted to T2)\n\n```bash\n./fix.sh # Auto-apply known pattern\n```\n"
    | _ => ""

def generateVerification : String :=
  "- [ ] Fix applied successfully\n- [ ] Re-run passes all validation layers\n" ++
    "- [ ] No regression detected\n- [ ] Drift count decreases in subsequent run\n" ++
    "- [ ] Skill effectiveness logged"

section Draft

variable (title : String → String) (percent : Rat → String)

/-- Everything above the line of the tier. -/
def frontmatterHead (c : EmergenceCandidate) : String :=
  "---\nname: " ++ c.suggestedSkillName ++ "\ndescription: \"" ++ c.recommendation ++
    "\"\nversion: 0.1.0\n"

/-- Everything below it. -/
def afterTier (createdAt : String) (c : EmergenceCandidate) : String :=
  "\ndrift_type: " ++ c.driftType.value ++ "\nemergence_id: " ++ c.patternId ++
    "\ncreated_at: " ++ createdAt ++ "\noccurrences: " ++ toString c.occurrenceCount ++
    "\naffected_runs: " ++ toString c.affectedRuns ++
    "\ntags: [\"ai-generated\", \"" ++ c.driftType.value ++ "\", \"emergence\"]\n---\n\n" ++
    "# " ++ title (c.suggestedSkillName.map fun x => if x = '-' then ' ' else x) ++ "\n\n" ++
    "> AI-Generated Skill (emergence: " ++ c.patternId ++ ")\n> Confidence: " ++
    percent c.confidence ++ "\n\n## Description\n\n" ++ c.recommendation ++
    "\n\n## Detection\n\n" ++ generateDetectionRules c.driftType ++
    "\n\n## Fix Steps\n\n" ++ generateFixSteps c.driftType c.description ++
    "\n\n## Verification\n\n" ++ generateVerification ++
    "\n\n## Drift Pattern\n\n- **Type:** " ++ c.driftType.value ++
    "\n- **Occurrences:** " ++ toString c.occurrenceCount ++
    "\n- **Affected Runs:** " ++ toString c.affectedRuns ++
    "\n- **Severity Trend:** " ++ c.severityTrend.value ++
    "\n- **First/Last:** (auto-tracked)\n\n---\n_Generated by Prodinamik AI Engine v1.3_"

/-- The draft of the template; the title case of a name, a confidence in percent
and the time are what Python makes of them. -/
def createSkillDraft (createdAt : String) (c : EmergenceCandidate) : SkillDraft where
  name := c.suggestedSkillName
  description := c.recommendation
  content := frontmatterHead c ++ t3ValidatorMarker ++ afterTier title percent createdAt c
  driftType := c.driftType
  confidence := c.confidence

def generateSkills (minConfidence : Rat) (createdAt : String) (candidates : List EmergenceCandidate) :
    List SkillDraft :=
  (candidates.filter fun c => minConfidence ≤ c.confidence).map
    (createSkillDraft title percent createdAt)

end Draft

def autoFixHeading : String := "## Auto-Fix Activated"

def autoFixSection : String :=
  "\n\n" ++ autoFixHeading ++ "\n\nThis skill has been promoted to T2 after " ++
    toString promotionThreshold ++ "+ successful fixes.\n"

/-- What _promote_skill makes of the text of a SKILL.md. -/
def promoted (content : String) : String :=
  String.ofList (replaceAll t3ValidatorMarker.toList t2ValidatorMarker.toList
    (Text.universalNewlines content.toList)) ++ autoFixSection

/-- How far a save gets. -/
inductive Disk
  | refuses
  | skillOnly
  | writes
  deriving DecidableEq, Repr

/-- The SKILL.md files and the stats by skill name. -/
structure AutoSkillForge (φ : Type) where
  files : φ → Option String
  fixStats : String → Option SkillFixStats := fun _ => none

namespace AutoSkillForge

variable {φ : Type} [DecidableEq φ] (skillPath : String → φ)

def saveSkill (s : AutoSkillForge φ) (disk : Disk) (now : Int) (draft : SkillDraft) :
    AutoSkillForge φ × Bool :=
  if draft.isReady then
    let files := Function.update s.files (skillPath draft.name) (some draft.content)
    match disk with
    | .refuses => (s, false)
    | .skillOnly => ({ s with files := files }, false)
    | .writes =>
        ({ files := files
           fixStats := Function.update s.fixStats draft.name
             (some { skillName := draft.name, createdAt := some now }) }, true)
  else (s, false)

def promoteSkill (s : AutoSkillForge φ) (skillName : String) : AutoSkillForge φ :=
  match s.files (skillPath skillName) with
  | none => s
  | some content =>
      { s with files := Function.update s.files (skillPath skillName) (some (promoted content)) }

def recordFixResult (s : AutoSkillForge φ) (skillName : String) (success : Bool) (now : Int) :
    AutoSkillForge φ :=
  let stats := (s.fixStats skillName).getD { skillName := skillName }
  let stats := { stats with
    timesUsed := stats.timesUsed + 1
    successCount := if success then stats.successCount + 1 else stats.successCount
    failureCount := if success then stats.failureCount else stats.failureCount + 1
    lastUsed := some now }
  let s := { s with fixStats := Function.update s.fixStats skillName (some stats) }
  if stats.isPromotable then s.promoteSkill skillPath skillName else s

variable (title : String → String) (percent : Rat → String)

/-- check_emergence of the engine for the candidates that the detector finds. -/
def checkEmergence (s : AutoSkillForge φ) (candidates : List EmergenceCandidate)
    (disk : String → Disk) (createdAt : String) (now : Int) : AutoSkillForge φ :=
  (generateSkills title percent (13 / 20) createdAt candidates).foldl
    (fun s draft => (s.saveSkill skillPath (disk draft.name) now draft).1) s

end AutoSkillForge

end Prodinamik.Skills
