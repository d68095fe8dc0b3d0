import Prodinamik.Lib.Words
import Prodinamik.Runs.Archive

namespace Prodinamik.Runs

open Lib Lib.Text Lib.Words

/-- What a character of a title leaves in a slug before its runs are joined. Besides the ASCII
letters only two characters have a lower case with an ASCII letter in it. -/
def slugChars (c : Char) : List Char :=
  if c = '\u0130' then ['i'] else if c = '\u212a' then ['k'] else [c.toLower].filter isSlugChar

/-- str.lower. What becomes of a character may depend on those around it. -/
structure CaseMapping where
  lower : List Char → List Char
  filter_lower : ∀ s, (lower s).filter isSlugChar = s.flatMap slugChars

/-- The lower case of the characters that may leave something in a slug. -/
def lowerChar (c : Char) : List Char :=
  if c = '\u0130' then ['i', '\u0307'] else if c = '\u212a' then ['k'] else [c.toLower]

theorem filter_lowerChar (c : Char) : (lowerChar c).filter isSlugChar = slugChars c := by
  rw [lowerChar, slugChars]
  split
  · decide
  · split
    · decide
    · rfl

instance : Inhabited CaseMapping where
  default :=
    { lower := fun s => s.flatMap lowerChar
      filter_lower := fun s => by
        rw [List.filter_flatMap]
        exact congrArg (fun f => s.flatMap f) (funext filter_lowerChar) }

def isSeparator (c : Char) : Bool := isSpace c || c = '_' || c = '-'

/-- The words of a title: the longest groups of characters that a slug keeps as they are. -/
def titleWords (title : String) : List (List Char) :=
  words isSeparator (title.toList.flatMap slugChars)

/-- Some character of the title is kept. -/
def HasUsable (title : String) : Prop :=
  ∃ c ∈ title.toList.flatMap slugChars, isSeparator c = false

/-- The first words of the title, but not all of them, joined by dashes are 79 characters. -/
def CutAtSeparator (title : String) : Prop :=
  ∃ i, 0 < i ∧ i < (titleWords title).length ∧
    (['-'].intercalate ((titleWords title).take i)).length = 79

/-- The characters a slug is made of. -/
def Lawful (c : Char) : Prop := ('a' ≤ c ∧ c ≤ 'z') ∨ ('0' ≤ c ∧ c ≤ '9') ∨ c = '-'

instance : DecidablePred Lawful := fun _ => inferInstanceAs (Decidable (_ ∨ _ ∨ _))

/-- The normal form of a slug. -/
structure SlugForm (slug : String) : Prop where
  nonempty : slug.toList ≠ []
  short : slug.toList.length ≤ 80
  lawful : ∀ c ∈ slug.toList, Lawful c
  first : slug.toList.head? ≠ some '-'
  last : slug.toList.getLast? ≠ some '-'
  apart : slug.toList.IsChain fun a b => ¬ (a = '-' ∧ b = '-')

theorem isSeparator_dash : isSeparator '-' = true := by decide

/-- The two substitutions together join every run of separators. -/
theorem dashes_dashes {q : Char → Bool} {inside within : Bool} (h : within → inside)
    (s : List Char) : dashes (· = '-') inside (dashes q within s) =
      dashes (fun c => q c || c = '-') inside s := by
  induction s generalizing inside within with
  | nil => rfl
  | cons c s ih =>
      cases hq : q c with
      | true =>
          have hboth : (q c || decide (c = '-')) = true := by rw [hq, Bool.true_or]
          cases within with
          | true =>
              rw [h rfl, dashes, if_pos hq, if_pos rfl, dashes, if_pos hboth, if_pos rfl]
              exact ih fun _ => rfl
          | false =>
              rw [dashes, if_pos hq, if_neg Bool.false_ne_true, dashes, dashes, if_pos hboth,
                if_pos (by rfl), ih fun _ => rfl]
      | false =>
          have hboth : (q c || decide (c = '-')) = decide (c = '-') := by rw [hq, Bool.false_or]
          rw [dashes, hq, if_neg Bool.false_ne_true, dashes, dashes, hboth,
            ih fun _ => rfl, ih fun h => absurd h Bool.false_ne_true]

theorem rdropWhile_cons {p : Char → Bool} (c : Char) (s : List Char) :
    (c :: s).rdropWhile p =
      if s.rdropWhile p = [] then [c].rdropWhile p else c :: s.rdropWhile p := by
  induction s using List.reverseRecOn with
  | nil => rfl
  | append_singleton s x ih =>
      cases hx : p x with
      | true =>
          rw [← List.cons_append, List.rdropWhile_concat_pos _ _ _ hx, ih,
            List.rdropWhile_concat_pos _ _ _ hx]
      | false =>
          have hneg : ¬ p x = true := by rw [hx]; exact Bool.false_ne_true
          rw [← List.cons_append, List.rdropWhile_concat_neg _ _ _ hneg,
            List.rdropWhile_concat_neg _ _ _ hneg, if_neg (by simp)]
          rfl

theorem rdropWhile_cons_other {c : Char} (hc : c ≠ '-') (s : List Char) :
    (c :: s).rdropWhile (· = '-') = c :: s.rdropWhile (· = '-') := by
  rw [rdropWhile_cons]
  split
  case isTrue h =>
    rw [h, List.rdropWhile_singleton, if_neg (by simpa using hc)]
  case isFalse => rfl

/-- A part of a word and the words after it. -/
def glue (w : List Char) (ws : List (List Char)) : List Char :=
  if ws = [] then w else w ++ '-' :: ['-'].intercalate ws

theorem intercalate_cons (w : List Char) (ws : List (List Char)) :
    ['-'].intercalate (w :: ws) = glue w ws := by
  rw [glue]
  split
  case isTrue h => rw [h, List.intercalate_singleton]
  case isFalse h => rw [List.intercalate_cons_of_ne_nil h, List.append_assoc, List.singleton_append]

theorem cons_glue (c : Char) (w : List Char) (ws : List (List Char)) :
    c :: glue w ws = glue (c :: w) ws := by
  rw [glue, glue]
  split <;> rfl

/-- The string with its runs joined, up to its trailing dash: from the start of a word, where the
first group may be empty, and from inside a run. -/
theorem rdropWhile_dashes {p : Char → Bool} (hdash : p '-') {w : List Char}
    {ws : List (List Char)} {s : List Char} (hs : s.splitOnP p = w :: ws) :
    (dashes p false s).rdropWhile (· = '-') = glue w (ws.filter fun w => !w.isEmpty) ∧
      (dashes p true s).rdropWhile (· = '-') = ['-'].intercalate (words p s) := by
  induction s generalizing w ws with
  | nil =>
      rw [List.splitOnP_nil, List.cons.injEq] at hs
      obtain ⟨rfl, rfl⟩ := hs
      exact ⟨rfl, rfl⟩
  | cons c s ih =>
      obtain ⟨w', ws', hs'⟩ := List.exists_cons_of_ne_nil (List.splitOnP_ne_nil p s)
      obtain ⟨hfalse, htrue⟩ := ih hs'
      have hwords : words p s = (w' :: ws').filter fun w => !w.isEmpty := by rw [words, hs']
      rw [List.splitOnP_cons_eq_if_modifyHead] at hs
      cases hc : p c with
      | true =>
          rw [if_pos hc, List.cons.injEq] at hs
          obtain ⟨rfl, rfl⟩ := hs
          have hapart : Apart '-' (words p s) := apart_words hdash s
          constructor
          · rw [dashes, if_pos hc, if_neg Bool.false_ne_true, rdropWhile_cons, htrue, glue]
            change _ = if words p s = [] then _ else _ :: ['-'].intercalate (words p s)
            simp only [hapart.joined_eq_nil_iff]
            rfl
          · rw [dashes, if_pos hc, if_pos rfl, htrue, words_cons_sep hc]
      | false =>
          have hne : c ≠ '-' := by
            rintro rfl
            rw [hc] at hdash
            exact Bool.false_ne_true hdash
          rw [if_neg (by simp [hc]), hs', List.modifyHead_cons, List.cons.injEq] at hs
          obtain ⟨rfl, rfl⟩ := hs
          have hone : (dashes p false s).rdropWhile (· = '-') =
            glue w' (ws'.filter fun w => !w.isEmpty) := hfalse
          constructor
          · rw [dashes, hc, if_neg Bool.false_ne_true, rdropWhile_cons_other hne, hone, cons_glue]
          · rw [dashes, hc, if_neg Bool.false_ne_true, rdropWhile_cons_other hne, hone, cons_glue,
              words, List.splitOnP_cons_eq_if_modifyHead, if_neg (by simp [hc]), hs',
              List.modifyHead_cons, List.filter_cons_of_pos (by rfl), intercalate_cons]

/-- The runs joined and the ends trimmed are the words with one dash between them. -/
theorem stripDashes_dashes {p : Char → Bool} (hdash : p '-') (s : List Char) :
    stripDashes (dashes p false s) = ['-'].intercalate (words p s) := by
  obtain ⟨w, ws, hs⟩ := List.exists_cons_of_ne_nil (List.splitOnP_ne_nil p s)
  have hwords : words p s = (w :: ws).filter fun w => !w.isEmpty := by rw [words, hs]
  have hapart : Apart '-' (words p s) := apart_words hdash s
  have hkept : (['-'].intercalate (words p s)).dropWhile (· = '-') =
      ['-'].intercalate (words p s) := by
    cases hjoined : ['-'].intercalate (words p s) with
    | nil => rfl
    | cons c cs =>
        have hhead := hapart.head_joined
        rw [hjoined, List.head?_cons] at hhead
        rw [List.dropWhile_cons_of_neg]
        simpa using fun hc : c = '-' => hhead (congrArg some hc)
  rw [stripDashes, (rdropWhile_dashes hdash hs).1]
  cases w with
  | nil =>
      rw [List.filter_cons_of_neg (by simp)] at hwords
      rw [glue, ← hwords]
      split
      case isTrue h => rw [h]; rfl
      case isFalse => rw [List.nil_append, List.dropWhile_cons_of_pos (by rfl), hkept]
  | cons c w =>
      rw [List.filter_cons_of_pos (by rfl)] at hwords
      rw [← intercalate_cons, ← hwords, hkept]

theorem words_strip (s : List Char) :
    words isSeparator ((strip s).filter isSlugChar) = words isSeparator (s.filter isSlugChar) := by
  have hspace : ∀ {t : List Char}, (∀ c ∈ t, isSpace c) →
      ∀ c ∈ t.filter isSlugChar, isSeparator c := by
    intro t ht c hc
    rw [isSeparator, ht c (List.mem_filter.mp hc).1]
    rfl
  have hleft := words_append_left (p := isSeparator)
    (hspace fun c hc => List.mem_takeWhile_imp (l := s.rdropWhile isSpace) hc)
    ((strip s).filter isSlugChar)
  have hright := words_append_right (p := isSeparator)
    (hspace fun c hc => List.mem_rtakeWhile_imp (l := s) hc) ((s.rdropWhile isSpace).filter isSlugChar)
  rw [← List.filter_append, strip, List.takeWhile_append_dropWhile] at hleft
  rw [← List.filter_append, List.rdropWhile_append_rtakeWhile] at hright
  rw [strip, ← hleft, hright]

def runName (now : DateTime) : String :=
  String.ofList ("run-".toList ++ now.compactDate ++ now.compactTime)

/-- A slug is the first eighty characters of the title's words with dashes between them. -/
theorem slugify_eq (m : CaseMapping) (now : DateTime) (title : String) :
    slugify m.lower now title = if titleWords title = [] then runName now
      else String.ofList ((['-'].intercalate (titleWords title)).take 80) := by
  have hslug : stripDashes (dashes (· = '-') false (dashes (fun c => isSpace c || c = '_') false
      ((strip (m.lower title.toList)).filter isSlugChar))) =
      ['-'].intercalate (titleWords title) := by
    rw [dashes_dashes id]
    change stripDashes (dashes isSeparator false _) = _
    rw [stripDashes_dashes isSeparator_dash, words_strip, m.filter_lower, titleWords]
  have hapart : Apart '-' (titleWords title) := apart_words isSeparator_dash _
  have hnil : (['-'].intercalate (titleWords title)).take 80 = [] ↔ titleWords title = [] := by
    rw [List.take_eq_nil_iff, hapart.joined_eq_nil_iff, or_iff_right (by decide)]
  rw [slugify]
  simp only [hslug, hnil]
  rfl

theorem hasUsable_iff (title : String) : HasUsable title ↔ titleWords title ≠ [] := by
  rw [titleWords, Ne, words_eq_nil_iff]
  constructor
  · rintro ⟨c, hc, hsep⟩ hall
    rw [hall c hc] at hsep
    exact Bool.false_ne_true hsep.symm
  · intro h
    push Not at h
    obtain ⟨c, hc, hsep⟩ := h
    exact ⟨c, hc, eq_false_of_ne_true hsep⟩

theorem lawful_digitChar : ∀ k < 10, Lawful k.digitChar := by decide +kernel

theorem lawful_run : ∀ c ∈ "run-".toList, Lawful c := by
  have hall : "run-".toList.all (fun c => decide (Lawful c)) = true := by decide +kernel
  exact fun c hc => of_decide_eq_true (List.all_eq_true.mp hall c hc)

theorem slugForm_runName (now : DateTime) : SlugForm (runName now) := by
  have hlist : (runName now).toList = "run-".toList ++ (now.compactDate ++ now.compactTime) := by
    delta runName
    rw [String.toList_ofList, List.append_assoc]
  have hdigits : ∀ c ∈ now.compactDate ++ now.compactTime, ∃ k < 10, c = k.digitChar := by
    intro c hc
    simp only [List.mem_append, DateTime.compactDate, DateTime.compactTime] at hc
    obtain (h | h | h) | h | h | h := hc <;> exact Decimal.mem_pad h
  have hdash : '-' ∉ now.compactDate ++ now.compactTime := by
    intro hc
    obtain ⟨k, hk, heq⟩ := hdigits _ hc
    exact absurd heq (by revert k; decide)
  have hlength : (now.compactDate ++ now.compactTime).length = 14 := by
    simp only [DateTime.compactDate, DateTime.compactTime, List.length_append, Decimal.pad_length]
  have hne : now.compactDate ++ now.compactTime ≠ [] := by
    intro h
    rw [h] at hlength
    exact absurd hlength (by decide)
  have hshort : (runName now).toList.length = 18 := by
    rw [hlist, List.length_append, hlength]
    rfl
  refine ⟨?_, hshort.trans_le (by decide), ?_, ?_, ?_, ?_⟩ <;> rw [hlist]
  · exact List.cons_ne_nil _ _
  · intro c hc
    obtain hc | hc := List.mem_append.mp hc
    · exact lawful_run c hc
    · obtain ⟨k, hk, rfl⟩ := hdigits c hc
      exact lawful_digitChar k hk
  · exact fun h => absurd (Option.some.inj h) (by decide)
  · rw [List.getLast?_append_of_ne_nil _ hne]
    exact fun h => hdash (List.mem_of_getLast? h)
  · refine List.IsChain.append (by decide +kernel) (isChain_of_not_mem hdash) ?_
    intro x _ y hy hxy
    rw [hxy.2] at hy
    exact hdash (List.mem_of_head? hy)

theorem lawful_iff (c : Char) : Lawful c ↔
    (97 ≤ c.toNat ∧ c.toNat ≤ 122) ∨ (48 ≤ c.toNat ∧ c.toNat ≤ 57) ∨ c.toNat = 45 := by
  have hdash : c = '-' ↔ c.toNat = 45 := Char.toNat_inj.symm
  rw [Lawful, hdash]
  rfl

theorem slugChars_of_lawful {c : Char} (hc : Lawful c) : slugChars c = [c] := by
  have hkeep : isSlugChar c = true := by
    rw [isSlugChar, decide_eq_true_iff]
    obtain h | h | h := hc
    · exact .inl h
    · exact .inr (.inl h)
    · exact .inr (.inr (.inl h))
  have hlower : c.toLower = c := by
    refine dif_neg ?_
    change ¬ (65 ≤ c.toNat ∧ c.toNat ≤ 90)
    rw [lawful_iff] at hc
    omega
  have hdotted : c ≠ '\u0130' := by
    rintro rfl
    exact absurd hc (by decide)
  have hkelvin : c ≠ '\u212a' := by
    rintro rfl
    exact absurd hc (by decide)
  rw [slugChars, if_neg hdotted, if_neg hkelvin, hlower, List.filter_cons_of_pos hkeep]
  rfl

theorem separator_of_lawful {c : Char} (hc : Lawful c) (hsep : isSeparator c) : c = '-' := by
  have hspace : isSpace c = false := by
    rw [isSpace, decide_eq_false_iff_not]
    rw [lawful_iff] at hc
    omega
  have hunder : c ≠ '_' := by
    rintro rfl
    exact absurd hc (by decide)
  rw [isSeparator, hspace, Bool.false_or, Bool.or_eq_true, decide_eq_true_iff,
    decide_eq_true_iff] at hsep
  exact hsep.resolve_left hunder

theorem lawful_of_word {c : Char} {s : List Char} (hc : c ∈ s.flatMap slugChars)
    (hsep : isSeparator c = false) : Lawful c := by
  obtain ⟨x, -, hx⟩ := List.mem_flatMap.mp hc
  rw [← filter_lowerChar, List.mem_filter] at hx
  have hslug := hx.2
  rw [isSeparator, Bool.or_eq_false_iff, Bool.or_eq_false_iff, decide_eq_false_iff_not,
    decide_eq_false_iff_not] at hsep
  rw [isSlugChar, decide_eq_true_iff] at hslug
  obtain h | h | h | h | h := hslug
  · exact .inl h
  · exact .inr (.inl h)
  · exact .inr (.inr h)
  · exact absurd h hsep.1.2
  · exact absurd (h.symm.trans hsep.1.1) (by decide)

theorem lawful_joined {title : String} {c : Char}
    (hc : c ∈ ['-'].intercalate (titleWords title)) : Lawful c := by
  obtain hc | ⟨w, hw, hcw⟩ := mem_intercalate hc
  · exact .inr (.inr (List.mem_singleton.mp hc))
  · obtain ⟨hmem, hsep⟩ := mem_of_mem_words hw hcw
    exact lawful_of_word hmem hsep

theorem getLast?_take (s : List Char) : (s.take 80).getLast? = s[79]?.or s.getLast? := by
  rw [List.getLast?_take]
  rfl

/-- A slug that is cut keeps a dash at its end exactly if one stands at the cut. -/
theorem slugForm_take_iff {title : String} (hne : titleWords title ≠ []) :
    SlugForm (String.ofList ((['-'].intercalate (titleWords title)).take 80)) ↔
      (['-'].intercalate (titleWords title))[79]? ≠ some '-' := by
  have hapart : Apart '-' (titleWords title) := apart_words isSeparator_dash _
  constructor
  · intro h hcut
    refine h.last ?_
    rw [String.toList_ofList, getLast?_take, hcut]
    rfl
  · intro hcut
    refine ⟨?_, ?_, ?_, ?_, ?_, ?_⟩ <;> rw [String.toList_ofList]
    · rw [Ne, List.take_eq_nil_iff, not_or]
      exact ⟨by decide, hapart.joined_ne_nil hne⟩
    · exact List.length_take_le _ _
    · exact fun c hc => lawful_joined (List.mem_of_mem_take hc)
    · rw [List.head?_take, if_neg (by decide)]
      exact hapart.head_joined
    · rw [getLast?_take]
      cases hat : (['-'].intercalate (titleWords title))[79]? with
      | none => exact hapart.getLast_joined
      | some c => rwa [hat] at hcut
    · exact hapart.isChain_joined.take 80

theorem dashes_of_apart {s : List Char} (hsep : ∀ c ∈ s, isSeparator c → c = '-')
    (hchain : s.IsChain fun a b => ¬ (a = '-' ∧ b = '-')) {inside : Bool}
    (hinside : inside → s.head? ≠ some '-') : dashes isSeparator inside s = s := by
  induction s generalizing inside with
  | nil => rfl
  | cons c s ih =>
      have hrest : ∀ x ∈ s, isSeparator x → x = '-' := fun x hx => hsep x (List.mem_cons_of_mem _ hx)
      obtain ⟨hnext, hchain'⟩ := List.isChain_cons.mp hchain
      rw [dashes]
      cases hc : isSeparator c with
      | true =>
          obtain rfl := hsep c List.mem_cons_self hc
          cases inside with
          | true => exact absurd rfl (hinside rfl)
          | false =>
              rw [if_pos rfl, if_neg Bool.false_ne_true, ih hrest hchain']
              exact fun _ hhead => hnext '-' hhead ⟨rfl, rfl⟩
      | false =>
          rw [if_neg Bool.false_ne_true, ih hrest hchain']
          exact fun h => absurd h Bool.false_ne_true

/-- A slug in normal form is its own slug. -/
theorem slugify_of_form (m : CaseMapping) (now : DateTime) {slug : String} (h : SlugForm slug) :
    slugify m.lower now slug = slug := by
  have hchars : slug.toList.flatMap slugChars = slug.toList := by
    rw [List.flatMap_congr fun c hc => slugChars_of_lawful (h.lawful c hc)]
    exact List.flatMap_singleton' _
  have hsep : ∀ c ∈ slug.toList, isSeparator c → c = '-' :=
    fun c hc => separator_of_lawful (h.lawful c hc)
  have hends : stripDashes slug.toList = slug.toList := by
    have hlast : slug.toList.rdropWhile (· = '-') = slug.toList := by
      rw [List.rdropWhile_eq_self_iff]
      intro hne hdash
      refine h.last ?_
      rw [List.getLast?_eq_getLast_of_ne_nil hne]
      exact congrArg some (of_decide_eq_true hdash)
    rw [stripDashes, hlast]
    cases hs : slug.toList with
    | nil => rfl
    | cons c s =>
        have hfirst := h.first
        rw [hs, List.head?_cons] at hfirst
        rw [List.dropWhile_cons_of_neg]
        simpa using fun hc : c = '-' => hfirst (congrArg some hc)
  have hjoined : ['-'].intercalate (titleWords slug) = slug.toList := by
    rw [titleWords, hchars, ← stripDashes_dashes isSeparator_dash,
      dashes_of_apart hsep h.apart fun h => absurd h Bool.false_ne_true, hends]
  have hne : titleWords slug ≠ [] := by
    intro hnil
    rw [hnil] at hjoined
    exact h.nonempty hjoined.symm
  rw [slugify_eq, if_neg hne, hjoined, List.take_of_length_le h.short, String.ofList_toList]

/-- slugify gives a normal form, which it then keeps, exactly for the titles whose slug is not
cut behind one of the dashes. -/
theorem slugify_normal_iff (m : CaseMapping) (now : DateTime) (title : String) :
    (SlugForm (slugify m.lower now title) ∧ (HasUsable title → ∀ later,
      slugify m.lower later (slugify m.lower now title) = slugify m.lower now title)) ↔
      ¬ CutAtSeparator title := by
  have hapart : Apart '-' (titleWords title) := apart_words isSeparator_dash _
  have hform : SlugForm (slugify m.lower now title) ↔ ¬ CutAtSeparator title := by
    rw [slugify_eq, CutAtSeparator, ← hapart.getElem?_joined]
    split
    case isTrue hnil =>
      rw [hnil]
      exact iff_of_true (slugForm_runName now) (by decide)
    case isFalse hne => exact slugForm_take_iff hne
  rw [← hform]
  exact and_iff_left_of_imp fun h _ later => slugify_of_form m later h

/-- Seventy-nine letters, a blank and one more letter. -/
def cutTitle : String := String.ofList (List.replicate 79 'a' ++ [' ', 'b'])

theorem not_slugify_normal : ¬ SlugForm (slugify (default : CaseMapping).lower default cutTitle) := by
  intro h
  exact h.last (by decide +kernel)

end Prodinamik.Runs
