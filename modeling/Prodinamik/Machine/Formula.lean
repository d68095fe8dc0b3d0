import Prodinamik.Lib.Split
import Prodinamik.Machine.Condition

namespace Prodinamik.Machine.Condition

open Lib.Text

/-- The fields that a condition may compare. -/
inductive Field
  | iterations
  | iterationCount
  | driftCount
  | failures
  | consecutiveFailures
  | reentryCount
  | totalIterations
  deriving DecidableEq, Repr

namespace Field

def name : Field → String
  | iterations => "iterations"
  | iterationCount => "iteration_count"
  | driftCount => "drift_count"
  | failures => "failures"
  | consecutiveFailures => "consecutive_failures"
  | reentryCount => "reentry_count"
  | totalIterations => "total_iterations"

def value (rt : RuntimeState) : Field → Int
  | iterations | iterationCount => rt.iterationCount
  | driftCount => rt.driftCount
  | failures | consecutiveFailures => rt.consecutiveFailures
  | reentryCount => rt.reentryCount
  | totalIterations => rt.totalIterations

end Field

/-- The names that stand for a condition by themselves. -/
inductive Flag
  | humanApproved
  | driftDetected
  | consecutiveFailures
  | changesRequested
  | manualUnblock
  | projectAbandoned
  | maxIterationsExceeded
  deriving DecidableEq, Repr

namespace Flag

def name : Flag → String
  | humanApproved => "human_approved"
  | driftDetected => "drift_detected"
  | consecutiveFailures => "consecutive_failures"
  | changesRequested => "changes_requested"
  | manualUnblock => "manual_unblock"
  | projectAbandoned => "project_abandoned"
  | maxIterationsExceeded => "max_iterations_exceeded"

def value (rt : RuntimeState) : Flag → Bool
  | humanApproved => rt.humanApproved
  | driftDetected => 0 < rt.driftCount
  | consecutiveFailures => 0 < rt.consecutiveFailures
  | changesRequested => rt.changesRequested
  | manualUnblock => rt.manualUnblock
  | projectAbandoned => rt.projectAbandoned
  | maxIterationsExceeded => rt.iterationCount < rt.totalIterations

end Flag

inductive Operator
  | ge
  | le
  | gt
  | lt
  | eq
  | ne
  deriving DecidableEq, Repr

namespace Operator

def text : Operator → String
  | ge => ">="
  | le => "<="
  | gt => ">"
  | lt => "<"
  | eq => "=="
  | ne => "!="

def value (a b : Int) : Operator → Bool
  | ge => b ≤ a
  | le => a ≤ b
  | gt => b < a
  | lt => a < b
  | eq => a = b
  | ne => a ≠ b

end Operator

/-- Blanks, which may stand around a name or a number. -/
structure Padding where
  text : List Char
  blank : ∀ c ∈ text, isSpace c

def Padding.empty : Padding := ⟨[], fun _ h => absurd h List.not_mem_nil⟩

def Padding.space : Padding := ⟨[' '], List.forall_mem_singleton.mpr rfl⟩

/-- An integer as int reads it. -/
structure Literal where
  text : List Char
  value : Int
  parsed : parseInt text = some value

inductive Atom
  | comparison (before : Padding) (field : Field) (between : Padding) (op : Operator)
      (literal : Literal)
  | flag (before : Padding) (flag : Flag) (after : Padding)

namespace Atom

def text : Atom → List Char
  | comparison before field between op literal =>
      before.text ++ field.name.toList ++ between.text ++ op.text.toList ++ literal.text
  | flag before f after => before.text ++ f.name.toList ++ after.text

def value (rt : RuntimeState) : Atom → Bool
  | comparison _ field _ op literal => op.value (field.value rt) literal.value
  | flag _ f _ => f.value rt

end Atom

/-- An OR of ANDs of atoms. -/
structure Formula where
  clauses : List (List Atom)
  nonempty : clauses ≠ []
  clauses_nonempty : ∀ clause ∈ clauses, clause ≠ []

namespace Formula

def clauseText (clause : List Atom) : List Char :=
  " AND ".toList.intercalate (clause.map Atom.text)

def text (f : Formula) : String :=
  String.ofList (" OR ".toList.intercalate (f.clauses.map clauseText))

/-- AND binds tighter than OR. -/
def value (rt : RuntimeState) (f : Formula) : Bool :=
  f.clauses.any fun clause => clause.all (Atom.value rt)

end Formula

theorem runtimeField_name (field : Field) (rt : RuntimeState) :
    runtimeField field.name.toList rt = some (field.value rt) := by
  cases field with
  | _ => rfl

theorem flag_name (f : Flag) (rt : RuntimeState) : flag f.name.toList rt = some (f.value rt) := by
  cases f with
  | _ => rfl

theorem compare_text (op : Operator) (a b : Int) : compare op.text a b = op.value a b := by
  cases op with
  | _ => rfl

/-- The characters that neither a connective nor an operator nor a call has. -/
def IsPlain (c : Char) : Prop :=
  c ≠ 'A' ∧ c ≠ 'O' ∧ c ≠ '(' ∧ c ≠ '>' ∧ c ≠ '<' ∧ c ≠ '=' ∧ c ≠ '!'

instance : DecidablePred IsPlain := fun _ => inferInstanceAs (Decidable (_ ∧ _))

theorem isPlain_of_space {c : Char} (h : isSpace c) : IsPlain c := by
  refine ⟨?_, ?_, ?_, ?_, ?_, ?_, ?_⟩ <;> rintro rfl <;> exact absurd h (by decide)

theorem isPlain_of_digit {c : Char} {d : Nat} (h : digit c = some d) : IsPlain c := by
  refine ⟨?_, ?_, ?_, ?_, ?_, ?_, ?_⟩ <;> rintro rfl <;> cases h

theorem isPlain_field (field : Field) : field.name.toList.all (fun c => decide (IsPlain c)) := by
  cases field with
  | _ => decide +kernel

theorem isPlain_flag (f : Flag) : f.name.toList.all (fun c => decide (IsPlain c)) := by
  cases f with
  | _ => decide +kernel

theorem isPlain_parseDigits {s : List Char} {acc n : Nat} {after : Bool}
    (h : parseDigits acc after s = some n) : ∀ c ∈ s, IsPlain c := by
  induction s generalizing acc after with
  | nil => exact fun c hc => absurd hc List.not_mem_nil
  | cons c s ih =>
      rw [parseDigits] at h
      by_cases hunder : c = '_'
      · rw [if_pos hunder] at h
        cases after with
        | false => cases h
        | true =>
            rw [if_pos rfl] at h
            exact List.forall_mem_cons.mpr ⟨hunder ▸ by decide, ih h⟩
      · rw [if_neg hunder] at h
        cases hd : digit c with
        | none => rw [hd] at h; cases h
        | some d =>
            rw [hd] at h
            exact List.forall_mem_cons.mpr ⟨isPlain_of_digit hd, ih h⟩

/-- What int accepts has no character of a connective, an operator or a call. -/
theorem isPlain_parseInt {s : List Char} {n : Int} (h : parseInt s = some n) :
    ∀ c ∈ s, IsPlain c := by
  have hstrip : ∀ c ∈ strip s, IsPlain c := by
    rw [parseInt] at h
    split at h
    case h_1 rest heq =>
      rw [heq]
      cases hk : parseDigits 0 false rest with
      | none => rw [hk] at h; cases h
      | some k => exact List.forall_mem_cons.mpr ⟨by decide, isPlain_parseDigits hk⟩
    case h_2 rest heq =>
      rw [heq]
      cases hk : parseDigits 0 false rest with
      | none => rw [hk] at h; cases h
      | some k => exact List.forall_mem_cons.mpr ⟨by decide, isPlain_parseDigits hk⟩
    case h_3 =>
      cases hk : parseDigits 0 false (strip s) with
      | none => rw [hk] at h; cases h
      | some k => exact isPlain_parseDigits hk
  intro c hc
  cases hspace : isSpace c with
  | true => exact isPlain_of_space hspace
  | false => exact hstrip c ((mem_strip hspace).mpr hc)

theorem Literal.isPlain (l : Literal) : ∀ c ∈ l.text, IsPlain c := isPlain_parseInt l.parsed

theorem Padding.isPlain (p : Padding) : ∀ c ∈ p.text, IsPlain c :=
  fun c hc => isPlain_of_space (p.blank c hc)

theorem Literal.inked (l : Literal) : Inked l.text := by
  by_contra h
  have hparsed := l.parsed
  rw [parseInt, strip_eq_nil_iff.mpr h] at hparsed
  exact absurd hparsed (by simp [parseDigits])

theorem Field.inked (field : Field) : Inked field.name.toList := by
  cases field with
  | _ => exact ⟨_, List.mem_cons_self, by decide⟩

theorem Flag.inked (f : Flag) : Inked f.name.toList := by
  cases f with
  | _ => exact ⟨_, List.mem_cons_self, by decide⟩

theorem strip_field (field : Field) : strip field.name.toList = field.name.toList := by
  cases field with
  | _ => decide +kernel

theorem strip_flag (f : Flag) : strip f.name.toList = f.name.toList := by
  cases f with
  | _ => decide +kernel

theorem Field.plain (field : Field) : ∀ c ∈ field.name.toList, IsPlain c :=
  fun c hc => of_decide_eq_true (List.all_eq_true.mp (isPlain_field field) c hc)

theorem Flag.plain (f : Flag) : ∀ c ∈ f.name.toList, IsPlain c :=
  fun c hc => of_decide_eq_true (List.all_eq_true.mp (isPlain_flag f) c hc)

/-- The part of a comparison before its operator. -/
def fieldPart (before : Padding) (field : Field) (between : Padding) : List Char :=
  before.text ++ field.name.toList ++ between.text

theorem fieldPart_plain (before : Padding) (field : Field) (between : Padding) :
    ∀ c ∈ fieldPart before field between, IsPlain c := by
  intro c hc
  rw [fieldPart, List.mem_append, List.mem_append] at hc
  obtain (hc | hc) | hc := hc
  · exact before.isPlain c hc
  · exact field.plain c hc
  · exact between.isPlain c hc

theorem fieldPart_inked (before : Padding) (field : Field) (between : Padding) :
    Inked (fieldPart before field between) :=
  (field.inked.append_right _).append_left _

theorem strip_padded (before : Padding) (s : List Char) (after : Padding) :
    strip (before.text ++ s ++ after.text) = strip s := by
  rw [strip_blank_right after.blank, strip_blank_left before.blank]

section Operators

variable {first rest : List Char} (hfirst : ∀ c ∈ first, IsPlain c)
  (hrest : ∀ c ∈ rest, IsPlain c)

include hfirst hrest

theorem not_mem_comparison {c : Char} (hc : ¬ IsPlain c) {op : List Char} (hop : c ∉ op) :
    c ∉ first ++ op ++ rest := by
  rw [List.mem_append, List.mem_append]
  rintro ((h | h) | h)
  · exact hc (hfirst c h)
  · exact hop h
  · exact hc (hrest c h)

theorem not_contains_comparison {c : Char} (hc : ¬ IsPlain c) {op o : List Char} (hop : c ∉ op)
    (ho : c ∈ o) : contains o (first ++ op ++ rest) = false :=
  contains_false ho (not_mem_comparison hfirst hrest hc hop)

/-- A single equals sign is no double one. -/
theorem not_contains_equals :
    contains "==".toList (first ++ "!=".toList ++ rest) = false := by
  refine eq_false_of_ne_true fun h => ?_
  have hcount := (contains_iff.mp h).sublist.count_le '='
  have hnone : ∀ {s : List Char}, (∀ c ∈ s, IsPlain c) → s.count '=' = 0 :=
    fun hs => List.count_eq_zero.mpr fun hmem => absurd (hs _ hmem) (by decide)
  rw [List.count_append, List.count_append, hnone hfirst, hnone hrest] at hcount
  exact absurd hcount (by decide +kernel)

/-- The operator that is found in a comparison is its own. -/
theorem find_operator (op : Operator) :
    (numericOperators.find? fun o => contains o.toList (first ++ op.text.toList ++ rest)) =
      some op.text := by
  have hself : contains op.text.toList (first ++ op.text.toList ++ rest) = true :=
    contains_iff.mpr ⟨first, rest, rfl⟩
  have hnot : ∀ (c : Char) (o : String), ¬ IsPlain c → c ∉ op.text.toList → c ∈ o.toList →
      ¬ contains o.toList (first ++ op.text.toList ++ rest) = true :=
    fun c o hc hop ho => Bool.eq_false_iff.mp (not_contains_comparison hfirst hrest hc hop ho)
  have hskip : ∀ {o : String} {os : List String},
      ¬ contains o.toList (first ++ op.text.toList ++ rest) = true →
      (o :: os).find? (fun o => contains o.toList (first ++ op.text.toList ++ rest)) =
        os.find? fun o => contains o.toList (first ++ op.text.toList ++ rest) :=
    fun h => List.find?_cons_of_neg h
  rw [numericOperators]
  cases op with
  | ge => exact List.find?_cons_of_pos hself
  | le =>
      rw [hskip (hnot '>' ">=" (by decide) (by decide) (by decide))]
      exact List.find?_cons_of_pos hself
  | gt =>
      rw [hskip (hnot '=' ">=" (by decide) (by decide) (by decide)),
        hskip (hnot '=' "<=" (by decide) (by decide) (by decide))]
      exact List.find?_cons_of_pos hself
  | lt =>
      rw [hskip (hnot '=' ">=" (by decide) (by decide) (by decide)),
        hskip (hnot '=' "<=" (by decide) (by decide) (by decide)),
        hskip (hnot '>' ">" (by decide) (by decide) (by decide))]
      exact List.find?_cons_of_pos hself
  | eq =>
      rw [hskip (hnot '>' ">=" (by decide) (by decide) (by decide)),
        hskip (hnot '<' "<=" (by decide) (by decide) (by decide)),
        hskip (hnot '>' ">" (by decide) (by decide) (by decide)),
        hskip (hnot '<' "<" (by decide) (by decide) (by decide))]
      exact List.find?_cons_of_pos hself
  | ne =>
      rw [hskip (hnot '>' ">=" (by decide) (by decide) (by decide)),
        hskip (hnot '<' "<=" (by decide) (by decide) (by decide)),
        hskip (hnot '>' ">" (by decide) (by decide) (by decide)),
        hskip (hnot '<' "<" (by decide) (by decide) (by decide)),
        hskip (Bool.eq_false_iff.mp (not_contains_equals hfirst hrest))]
      exact List.find?_cons_of_pos hself

end Operators

theorem find_none {s : List Char} (hs : ∀ c ∈ s, IsPlain c) :
    (numericOperators.find? fun o => contains o.toList s) = none := by
  rw [List.find?_eq_none]
  intro o ho
  have hmark : numericOperators.all (fun o => o.toList.any fun c => !decide (IsPlain c)) = true := by
    decide +kernel
  obtain ⟨c, hc, hplain⟩ := List.any_eq_true.mp (List.all_eq_true.mp hmark o ho)
  rw [Bool.not_eq_true', decide_eq_false_iff_not] at hplain
  exact Bool.eq_false_iff.mp (contains_false hc fun hmem => hplain (hs c hmem))

theorem Atom.not_mem (a : Atom) {c : Char} (hc : c = 'A' ∨ c = 'O' ∨ c = '(') : c ∉ a.text := by
  have hplain : ¬ IsPlain c := by
    obtain rfl | rfl | rfl := hc <;> decide
  cases a with
  | comparison before field between op literal =>
      refine not_mem_comparison (fieldPart_plain before field between) literal.isPlain hplain ?_
      obtain rfl | rfl | rfl := hc <;> cases op <;> decide
  | flag before f after =>
      rw [Atom.text, List.mem_append, List.mem_append]
      rintro ((h | h) | h)
      · exact hplain (before.isPlain c h)
      · exact hplain (f.plain c h)
      · exact hplain (after.isPlain c h)

theorem Atom.inked (a : Atom) : Inked a.text := by
  cases a with
  | comparison before field between op literal => exact literal.inked.append_right _
  | flag before f after => exact (f.inked.append_right _).append_left _

theorem evaluateSingleCondition_strip (s : List Char) (rt : RuntimeState) :
    evaluateSingleCondition (strip s) rt = evaluateSingleCondition s rt := by
  rw [evaluateSingleCondition, evaluateSingleCondition, strip_strip]

theorem evaluateSingleCondition_comparison (before : Padding) (field : Field) (between : Padding)
    (op : Operator) (literal : Literal) (rt : RuntimeState) :
    evaluateSingleCondition (Atom.comparison before field between op literal).text rt =
      op.value (field.value rt) literal.value := by
  have hstrip : strip (Atom.comparison before field between op literal).text =
      (fieldPart before field between).dropWhile isSpace ++ op.text.toList ++
        literal.text.rdropWhile isSpace :=
    strip_append (fieldPart_inked before field between) literal.inked _
  have hfirst : ∀ c ∈ (fieldPart before field between).dropWhile isSpace, IsPlain c :=
    fun c hc => fieldPart_plain before field between c ((List.dropWhile_suffix _).subset hc)
  have hrest : ∀ c ∈ literal.text.rdropWhile isSpace, IsPlain c :=
    fun c hc => literal.isPlain c ((List.rdropWhile_prefix _ _).subset hc)
  have hmark : ∃ c ∈ op.text.toList, ¬ IsPlain c := by
    cases op with
    | _ => exact ⟨_, List.mem_cons_self, by decide⟩
  obtain ⟨o, ho, hplain⟩ := hmark
  have hparts := splitOnce_append ho (fun hmem => hplain (hfirst o hmem))
    (literal.text.rdropWhile isSpace)
  have hname : strip (fieldPart before field between) = field.name.toList := by
    rw [fieldPart, strip_padded, strip_field]
  rw [evaluateSingleCondition, hstrip]
  simp only [find_operator hfirst hrest, hparts]
  rw [strip_rdropWhile, parseInt_strip, literal.parsed, strip_dropWhile, hname, runtimeField_name]
  exact compare_text op _ _

theorem evaluateSingleCondition_flag (before : Padding) (f : Flag) (after : Padding)
    (rt : RuntimeState) :
    evaluateSingleCondition (Atom.flag before f after).text rt = f.value rt := by
  have hcall : '(' ∉ f.name.toList := fun hmem => absurd (f.plain _ hmem) (by decide)
  rw [evaluateSingleCondition, Atom.text, strip_padded, strip_flag]
  simp only [find_none f.plain, if_neg hcall, flag_name, Option.getD_some]

theorem evaluateSingleCondition_atom (a : Atom) (rt : RuntimeState) :
    evaluateSingleCondition a.text rt = a.value rt := by
  cases a with
  | comparison before field between op literal =>
      exact evaluateSingleCondition_comparison before field between op literal rt
  | flag before f after => exact evaluateSingleCondition_flag before f after rt

theorem runtimeField_unknown {name : List Char} (h : 'A' ∈ name) (rt : RuntimeState) :
    runtimeField name rt = none := by
  have hne : ∀ field : Field, name ≠ field.name.toList := by
    rintro field rfl
    exact absurd (field.plain _ h) (by decide)
  exact (if_neg (hne .iterations)).trans ((if_neg (hne .iterationCount)).trans
    ((if_neg (hne .driftCount)).trans ((if_neg (hne .failures)).trans
      ((if_neg (hne .consecutiveFailures)).trans ((if_neg (hne .reentryCount)).trans
        (if_neg (hne .totalIterations)))))))

theorem flag_unknown {name : List Char} (h : 'A' ∈ name) (rt : RuntimeState) :
    flag name rt = none := by
  have hne : ∀ f : Flag, name ≠ f.name.toList := by
    rintro f rfl
    exact absurd (f.plain _ h) (by decide)
  exact (if_neg (hne .humanApproved)).trans ((if_neg (hne .driftDetected)).trans
    ((if_neg (hne .consecutiveFailures)).trans ((if_neg (hne .changesRequested)).trans
      ((if_neg (hne .manualUnblock)).trans ((if_neg (hne .projectAbandoned)).trans
        (if_neg (hne .maxIterationsExceeded)))))))

theorem operator_shape : ∀ o ∈ numericOperators, o.toList ≠ [] ∧ 'A' ∉ o.toList := by
  decide +kernel

/-- Atoms joined by AND are met, whatever they say, when they are taken for one atom. -/
theorem evaluateSingleCondition_compound {s : List Char} (hA : 'A' ∈ s) (hcall : '(' ∉ s)
    (rt : RuntimeState) : evaluateSingleCondition s rt = true := by
  have hA' : 'A' ∈ strip s := (mem_strip (by decide)).mpr hA
  rw [evaluateSingleCondition]
  cases hfind : numericOperators.find? fun o => contains o.toList (strip s) with
  | none =>
      simp only [if_neg (mt mem_of_mem_strip hcall), flag_unknown hA', Option.getD_none]
  | some op =>
      have hshape := operator_shape op (List.mem_of_find?_eq_some hfind)
      have hcontains : contains op.toList (strip s) = true :=
        List.find?_some (p := fun o : String => contains o.toList (strip s)) hfind
      have hparts := splitOnce_spec hshape.1 hcontains
      rw [hparts, List.mem_append, List.mem_append] at hA'
      simp only
      obtain (hfield | hmid) | hnumber := hA'
      · rw [runtimeField_unknown ((mem_strip (by decide)).mpr hfield)]
        split <;> first | rfl | contradiction
      · exact absurd hmid hshape.2
      · cases hparsed : parseInt (strip (splitOnce op.toList (strip s)).2) with
        | none => rfl
        | some n =>
            have hmem := (mem_strip (c := 'A') (by decide)).mpr hnumber
            exact absurd (isPlain_parseInt hparsed _ hmem) (by decide)

namespace Formula

theorem not_mem_clauseText (clause : List Atom) : 'O' ∉ clauseText clause := by
  intro hmem
  obtain h | ⟨w, hw, hmem⟩ := Lib.Words.mem_intercalate hmem
  · exact absurd h (by decide)
  · obtain ⟨a, -, rfl⟩ := List.mem_map.mp hw
    exact a.not_mem (.inr (.inl rfl)) hmem

theorem clauseText_call (clause : List Atom) : '(' ∉ clauseText clause := by
  intro hmem
  obtain h | ⟨w, hw, hmem⟩ := Lib.Words.mem_intercalate hmem
  · exact absurd h (by decide)
  · obtain ⟨a, -, rfl⟩ := List.mem_map.mp hw
    exact a.not_mem (.inr (.inr rfl)) hmem

theorem inked_atoms (clause : List Atom) : ∀ p ∈ clause.map Atom.text, Inked p := by
  intro p hp
  obtain ⟨a, -, rfl⟩ := List.mem_map.mp hp
  exact a.inked

theorem inked_clauseText {clause : List Atom} (hne : clause ≠ []) : Inked (clauseText clause) :=
  inked_intercalate (mt List.map_eq_nil_iff.mp hne) (inked_atoms clause) _

/-- A clause that is taken for one condition: an atom keeps its value, more atoms are met. -/
theorem evaluate_clause {clause : List Atom} (hne : clause ≠ []) (rt : RuntimeState) :
    evaluateSingleCondition (clauseText clause) rt =
      (decide (2 ≤ clause.length) || clause.all (Atom.value rt)) := by
  obtain ⟨a, clause, rfl⟩ := List.exists_cons_of_ne_nil hne
  obtain rfl | hrest := eq_or_ne clause []
  · rw [clauseText, List.map_singleton, List.intercalate_singleton, evaluateSingleCondition_atom]
    exact (Bool.and_true _).symm
  · have hlength : 2 ≤ (a :: clause).length :=
      Nat.succ_le_succ (List.length_pos_of_ne_nil hrest)
    have hA : 'A' ∈ clauseText (a :: clause) := by
      rw [clauseText, List.map_cons, List.intercalate_cons_of_ne_nil (mt List.map_eq_nil_iff.mp hrest)]
      exact List.mem_append_left _ (List.mem_append_right _ (by decide))
    rw [evaluateSingleCondition_compound hA (clauseText_call _), decide_eq_true hlength]
    rfl

theorem any_strip {ps qs : List (List Char)} (h : SameStripped qs ps) (rt : RuntimeState) :
    (qs.any fun p => evaluateSingleCondition (strip p) rt) =
      ps.any fun p => evaluateSingleCondition p rt := by
  have hq : (qs.map strip).any (fun p => evaluateSingleCondition p rt) =
      qs.any fun p => evaluateSingleCondition (strip p) rt := List.any_map
  rw [← hq, h, List.any_map]
  exact congrArg ps.any (funext fun p => evaluateSingleCondition_strip p rt)

theorem all_strip {ps qs : List (List Char)} (h : SameStripped qs ps) (rt : RuntimeState) :
    (qs.all fun p => evaluateSingleCondition (strip p) rt) =
      ps.all fun p => evaluateSingleCondition p rt := by
  have hq : (qs.map strip).all (fun p => evaluateSingleCondition p rt) =
      qs.all fun p => evaluateSingleCondition (strip p) rt := List.all_map
  rw [← hq, h, List.all_map]
  exact congrArg ps.all (funext fun p => evaluateSingleCondition_strip p rt)

/-- With more than one clause each of them is taken for one condition. -/
theorem evaluate_clauses {f : Formula} (hmany : 2 ≤ f.clauses.length) (rt : RuntimeState) :
    evaluateCondition f.text rt =
      f.clauses.any fun clause => evaluateSingleCondition (clauseText clause) rt := by
  have hink : ∀ p ∈ f.clauses.map clauseText, Inked p := by
    intro p hp
    obtain ⟨clause, hclause, rfl⟩ := List.mem_map.mp hp
    exact inked_clauseText (f.clauses_nonempty clause hclause)
  have hfree : ∀ p ∈ f.clauses.map clauseText, 'O' ∉ p := by
    intro p hp
    obtain ⟨clause, -, rfl⟩ := List.mem_map.mp hp
    exact not_mem_clauseText clause
  obtain ⟨qs, hqs, hstrip⟩ := exists_strip_intercalate hink " OR ".toList
  have hlength : qs.length = f.clauses.length := by
    have h := congrArg List.length hqs
    rwa [List.length_map, List.length_map, List.length_map] at h
  have hne : qs ≠ [] := List.ne_nil_of_length_pos (by omega)
  have hlist : f.text.toList = " OR ".toList.intercalate (f.clauses.map clauseText) :=
    String.toList_ofList
  rw [evaluateCondition, hlist, hstrip, if_pos (contains_intercalate (by omega)),
    split_intercalate (o := 'O') (by decide) hne (hqs.not_mem (by decide) hfree), any_strip hqs,
    List.any_map]
  rfl

/-- One clause is the AND of its atoms. -/
theorem evaluate_one {clause : List Atom} (hne : clause ≠ []) (rt : RuntimeState) :
    evaluateCondition (String.ofList (clauseText clause)) rt = clause.all (Atom.value rt) := by
  have hfree : ∀ p ∈ clause.map Atom.text, 'A' ∉ p := by
    intro p hp
    obtain ⟨a, -, rfl⟩ := List.mem_map.mp hp
    exact a.not_mem (.inl rfl)
  have hor : contains " OR ".toList (strip (clauseText clause)) = false :=
    contains_false (o := 'O') (by decide) (mt mem_of_mem_strip (not_mem_clauseText clause))
  obtain ⟨qs, hqs, hstrip⟩ := exists_strip_intercalate (inked_atoms clause) " AND ".toList
  have hlength : qs.length = clause.length := by
    have h := congrArg List.length hqs
    rwa [List.length_map, List.length_map, List.length_map] at h
  have hlist : (String.ofList (clauseText clause)).toList = clauseText clause :=
    String.toList_ofList
  rw [evaluateCondition, hlist]
  simp only [hor, if_neg Bool.false_ne_true]
  by_cases hmany : 2 ≤ clause.length
  · have hne' : qs ≠ [] := List.ne_nil_of_length_pos (by omega)
    rw [clauseText, hstrip, if_pos (contains_intercalate (by omega)),
      split_intercalate (o := 'A') (by decide) hne' (hqs.not_mem (by decide) hfree), all_strip hqs,
      List.all_map]
    exact congrArg clause.all (funext fun a => evaluateSingleCondition_atom a rt)
  · obtain ⟨a, rest, rfl⟩ := List.exists_cons_of_ne_nil hne
    have hrest : rest = [] := by
      by_contra h
      exact hmany (Nat.succ_le_succ (List.length_pos_of_ne_nil h))
    subst hrest
    have hsingle : clauseText [a] = a.text := by
      rw [clauseText, List.map_singleton, List.intercalate_singleton]
    have hand : contains " AND ".toList (strip (clauseText [a])) = false := by
      refine contains_false (o := 'A') (by decide) (mt mem_of_mem_strip ?_)
      rw [hsingle]
      exact a.not_mem (.inl rfl)
    rw [hand, if_neg Bool.false_ne_true, evaluateSingleCondition_strip, hsingle,
      evaluateSingleCondition_atom, List.all_cons, List.all_nil, Bool.and_true]

/-- drift_count > 0 AND failures > 0 OR iterations > 5 -/
def driftAndFailures : Formula where
  clauses :=
    [[.comparison .empty .driftCount .space .gt ⟨[' ', '0'], 0, rfl⟩,
      .comparison .empty .failures .space .gt ⟨[' ', '0'], 0, rfl⟩],
    [.comparison .empty .iterations .space .gt ⟨[' ', '5'], 5, rfl⟩]]
  nonempty := List.cons_ne_nil _ _
  clauses_nonempty := List.forall_mem_cons.mpr ⟨List.cons_ne_nil _ _,
    List.forall_mem_singleton.mpr (List.cons_ne_nil _ _)⟩

end Formula

end Prodinamik.Machine.Condition
