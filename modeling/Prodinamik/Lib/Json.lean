import Mathlib.Data.List.Basic
import Mathlib.Data.List.TakeWhile

namespace Prodinamik.Lib.Json

/-! Numbers. -/

/-- A character that could continue a number. -/
def continues (c : Char) : Bool := c.isDigit || c = '.' || c = 'e' || c = 'E'

/-- What follows a value does not continue it. -/
def Ends (s : List Char) : Prop := ∀ c, s.head? = some c → continues c = false

def digits (s : List Char) : List Char × List Char :=
  (s.takeWhile Char.isDigit, s.dropWhile Char.isDigit)

def intPart : List Char → Option (List Char × List Char)
  | [] => none
  | c :: s =>
      if c = '0' then some ([c], s)
      else if c.isDigit then some (c :: (digits s).1, (digits s).2)
      else none

def signedPart : List Char → Option (List Char × List Char)
  | [] => none
  | c :: s => if c = '-' then (intPart s).map fun r => (c :: r.1, r.2) else intPart (c :: s)

/-- A point without digits behind it is no fraction. -/
def fracPart : List Char → List Char × List Char
  | [] => ([], [])
  | c :: s => if c = '.' ∧ (digits s).1 ≠ [] then (c :: (digits s).1, (digits s).2) else ([], c :: s)

def expSign : List Char → List Char × List Char
  | [] => ([], [])
  | c :: s => if c = '+' ∨ c = '-' then ([c], s) else ([], c :: s)

def expPart : List Char → List Char × List Char
  | [] => ([], [])
  | c :: s =>
      if (c = 'e' ∨ c = 'E') ∧ (digits (expSign s).2).1 ≠ [] then
        (c :: ((expSign s).1 ++ (digits (expSign s).2).1), (digits (expSign s).2).2)
      else ([], c :: s)

/-- The integer digits of a number, its fraction and exponent, and the rest. -/
def lexNumber (s : List Char) : Option ((List Char × List Char) × List Char) :=
  (signedPart s).map fun i =>
    let f := fracPart i.2
    let e := expPart f.2
    ((i.1, f.1 ++ e.1), e.2)

theorem digits_append {s t : List Char} (h : ∀ c, ((digits s).2 ++ t).head? = some c → ¬ c.isDigit) :
    digits (s ++ t) = ((digits s).1, (digits s).2 ++ t) := by
  simp only [digits] at h ⊢
  induction s with
  | nil =>
      cases t with
      | nil => rfl
      | cons c t =>
          have hc := h c rfl
          rw [List.nil_append, List.takeWhile_cons_of_neg hc, List.dropWhile_cons_of_neg hc]
          rfl
  | cons c s ih =>
      by_cases hc : c.isDigit
      · rw [List.dropWhile_cons_of_pos hc] at h
        have hs := Prod.mk.inj (ih h)
        rw [List.cons_append, List.takeWhile_cons_of_pos hc, List.dropWhile_cons_of_pos hc, hs.1, hs.2,
          List.takeWhile_cons_of_pos hc, List.dropWhile_cons_of_pos hc]
      · rw [List.cons_append, List.takeWhile_cons_of_neg hc, List.dropWhile_cons_of_neg hc,
          List.takeWhile_cons_of_neg hc, List.dropWhile_cons_of_neg hc]
        rfl

theorem head_digits {s : List Char} {c : Char} (h : (digits s).2.head? = some c) : ¬ c.isDigit := by
  have hnot := List.head?_dropWhile_not Char.isDigit s
  simp only [digits] at h
  rw [h] at hnot
  simpa using hnot

/-- The head of an append, when the first part does not end before it. -/
theorem head_append {p : Char → Prop} {s t : List Char} (hs : ∀ c, s.head? = some c → p c)
    (ht : s = [] → ∀ c, t.head? = some c → p c) : ∀ c, (s ++ t).head? = some c → p c := by
  cases s with
  | nil => exact ht rfl
  | cons d s => exact hs

theorem Ends.not_digit {s : List Char} (h : Ends s) : ∀ c, s.head? = some c → ¬ c.isDigit := by
  intro c hc hdigit
  have hno := h c hc
  rw [continues, hdigit] at hno
  simp at hno

theorem digits_more {s t : List Char} (h : (digits s).2 = [] → Ends t) :
    digits (s ++ t) = ((digits s).1, (digits s).2 ++ t) :=
  digits_append (head_append (p := fun c => ¬ c.isDigit) (fun _ => head_digits)
    fun hnil => (h hnil).not_digit)

theorem intPart_append {s t : List Char} {r : List Char × List Char} (h : intPart s = some r)
    (ht : r.2 = [] → Ends t) : intPart (s ++ t) = some (r.1, r.2 ++ t) := by
  cases s with
  | nil => cases h
  | cons c s =>
      rw [List.cons_append, intPart]
      rw [intPart] at h
      by_cases hzero : c = '0'
      · rw [if_pos hzero] at h ⊢
        cases h
        rfl
      · rw [if_neg hzero] at h ⊢
        by_cases hdigit : c.isDigit
        · rw [if_pos hdigit] at h ⊢
          cases h
          rw [digits_more ht]
        · rw [if_neg hdigit] at h
          cases h

theorem signedPart_append {s t : List Char} {r : List Char × List Char} (h : signedPart s = some r)
    (ht : r.2 = [] → Ends t) : signedPart (s ++ t) = some (r.1, r.2 ++ t) := by
  cases s with
  | nil => cases h
  | cons c s =>
      rw [signedPart] at h
      rw [List.cons_append, signedPart]
      by_cases hsign : c = '-'
      · rw [if_pos hsign] at h ⊢
        obtain ⟨i, hi, rfl⟩ := Option.map_eq_some_iff.mp h
        rw [intPart_append hi ht]
        rfl
      · rw [if_neg hsign] at h ⊢
        exact intPart_append h ht

theorem expSign_append {s : List Char} (hne : (expSign s).2 ≠ []) (t : List Char) :
    expSign (s ++ t) = ((expSign s).1, (expSign s).2 ++ t) := by
  cases s with
  | nil => exact absurd rfl hne
  | cons c s =>
      rw [List.cons_append, expSign, expSign]
      split <;> rfl

theorem digits_ne_nil {s : List Char} (h : (digits s).1 ≠ []) : s ≠ [] := by
  rintro rfl
  exact h rfl

theorem fracPart_none {s : List Char} (h : s.head? ≠ some '.') : fracPart s = ([], s) := by
  cases s with
  | nil => rfl
  | cons c s =>
      rw [fracPart, if_neg]
      rintro ⟨rfl, -⟩
      exact h rfl

theorem expPart_none {s : List Char} (he : s.head? ≠ some 'e') (hE : s.head? ≠ some 'E') :
    expPart s = ([], s) := by
  cases s with
  | nil => rfl
  | cons c s =>
      rw [expPart, if_neg]
      rintro ⟨rfl | rfl, -⟩
      · exact he rfl
      · exact hE rfl

theorem Ends.head {s : List Char} (h : Ends s) {c : Char} (hc : continues c = true) :
    s.head? ≠ some c := by
  intro hs
  rw [h c hs] at hc
  cases hc

theorem expPart_append {s t : List Char} (hends : Ends ((expPart s).2 ++ t)) :
    expPart (s ++ t) = ((expPart s).1, (expPart s).2 ++ t) := by
  cases s with
  | nil =>
      have ht : Ends t := hends
      exact expPart_none (ht.head (by decide)) (ht.head (by decide))
  | cons c s =>
      by_cases hexp : (c = 'e' ∨ c = 'E') ∧ (digits (expSign s).2).1 ≠ []
      · rw [expPart, if_pos hexp] at hends
        have hmore : digits ((expSign s).2 ++ t) =
            ((digits (expSign s).2).1, (digits (expSign s).2).2 ++ t) := by
          refine digits_more fun hnil => ?_
          rwa [hnil] at hends
        have hsign := expSign_append (digits_ne_nil hexp.2) t
        rw [List.cons_append, expPart, hsign, hmore, if_pos hexp, expPart, if_pos hexp]
      · have hnone : expPart (c :: s) = ([], c :: s) := by rw [expPart, if_neg hexp]
        rw [hnone] at hends ⊢
        exact expPart_none (hends.head (by decide)) (hends.head (by decide))

theorem fracPart_append {s t : List Char} (hends : Ends ((expPart (fracPart s).2).2 ++ t)) :
    fracPart (s ++ t) = ((fracPart s).1, (fracPart s).2 ++ t) := by
  cases s with
  | nil =>
      have ht : Ends t := hends
      exact fracPart_none (ht.head (by decide))
  | cons c s =>
      by_cases hfrac : c = '.' ∧ (digits s).1 ≠ []
      · have hmore : digits (s ++ t) = ((digits s).1, (digits s).2 ++ t) := by
          refine digits_more fun hnil => ?_
          rwa [fracPart, if_pos hfrac, hnil] at hends
        rw [List.cons_append, fracPart, hmore, if_pos hfrac, fracPart, if_pos hfrac]
      · have hnone : fracPart (c :: s) = ([], c :: s) := by rw [fracPart, if_neg hfrac]
        rw [hnone] at hends ⊢
        refine fracPart_none ?_
        rintro ⟨⟩
        rw [expPart_none (by simp) (by simp)] at hends
        exact hends.head (by decide) rfl

/-- What is read of a number stays the same with more text behind it, as long
as that text does not continue the number. -/
theorem lexNumber_append {s t : List Char} {r : (List Char × List Char) × List Char}
    (h : lexNumber s = some r) (hends : Ends (r.2 ++ t)) :
    lexNumber (s ++ t) = some (r.1, r.2 ++ t) := by
  obtain ⟨i, hi, rfl⟩ := Option.map_eq_some_iff.mp h
  have hfrac := fracPart_append (s := i.2) hends
  have hexp := expPart_append (s := (fracPart i.2).2) hends
  have hint : signedPart (s ++ t) = some (i.1, i.2 ++ t) := by
    refine signedPart_append hi fun hnil => ?_
    simp only [hnil] at hends
    exact hends
  rw [lexNumber, hint]
  simp only [Option.map_some]
  rw [hfrac]
  simp only
  rw [hexp]

theorem digits_text (s : List Char) : (digits s).1 ++ (digits s).2 = s :=
  List.takeWhile_append_dropWhile

theorem intPart_text {s : List Char} {r : List Char × List Char} (h : intPart s = some r) :
    s = r.1 ++ r.2 := by
  cases s with
  | nil => cases h
  | cons c s =>
      rw [intPart] at h
      split at h
      · cases h
        rfl
      · split at h
        · cases h
          rw [List.cons_append, digits_text]
        · cases h

theorem signedPart_text {s : List Char} {r : List Char × List Char} (h : signedPart s = some r) :
    s = r.1 ++ r.2 := by
  cases s with
  | nil => cases h
  | cons c s =>
      rw [signedPart] at h
      split at h
      · obtain ⟨i, hi, rfl⟩ := Option.map_eq_some_iff.mp h
        rw [List.cons_append, ← intPart_text hi]
      · exact intPart_text h

theorem fracPart_text (s : List Char) : (fracPart s).1 ++ (fracPart s).2 = s := by
  cases s with
  | nil => rfl
  | cons c s =>
      rw [fracPart]
      split
      · rw [List.cons_append, digits_text]
      · rfl

theorem expSign_text (s : List Char) : (expSign s).1 ++ (expSign s).2 = s := by
  cases s with
  | nil => rfl
  | cons c s =>
      rw [expSign]
      split <;> rfl

theorem expPart_text (s : List Char) : (expPart s).1 ++ (expPart s).2 = s := by
  cases s with
  | nil => rfl
  | cons c s =>
      rw [expPart]
      split
      · rw [List.cons_append, List.append_assoc, digits_text, expSign_text]
      · rfl

theorem lexNumber_text {s : List Char} {r : (List Char × List Char) × List Char}
    (h : lexNumber s = some r) : s = r.1.1 ++ r.1.2 ++ r.2 := by
  obtain ⟨i, hi, rfl⟩ := Option.map_eq_some_iff.mp h
  simp only [List.append_assoc]
  rw [expPart_text, fracPart_text]
  exact signedPart_text hi

def intText : Int → List Char
  | .ofNat n => Nat.toDigits 10 n
  | .negSucc n => '-' :: Nat.toDigits 10 (n + 1)

def intOf : List Char → Int
  | '-' :: s => -(Nat.ofDigitChars 10 s 0 : Nat)
  | s => (Nat.ofDigitChars 10 s 0 : Nat)

/-- A positive number is a digit that is no zero and more digits. -/
theorem toDigits_pos {n : Nat} (h : 0 < n) : ∃ c s, Nat.toDigits 10 n = c :: s ∧ c ≠ '0' ∧
    c.isDigit ∧ ∀ d ∈ s, d.isDigit := by
  have hdigit : ∀ k < 10, k.digitChar.isDigit := by decide
  have hzero : ∀ k < 10, 0 < k → k.digitChar ≠ '0' := by decide
  induction n using Nat.strongRecOn with
  | ind n ih =>
      by_cases hn : n < 10
      · rw [Nat.toDigits_of_lt_base hn]
        exact ⟨_, [], rfl, hzero n hn h, hdigit n hn, by simp⟩
      · obtain ⟨c, s, hs, hne, hc, hall⟩ := ih (n / 10) (by omega) (by omega)
        rw [Nat.toDigits_of_base_le (by omega) (by omega), hs]
        refine ⟨c, s ++ [(n % 10).digitChar], rfl, hne, hc, ?_⟩
        intro d hd
        rcases List.mem_append.mp hd with hd | hd
        · exact hall d hd
        · rw [List.mem_singleton.mp hd]
          exact hdigit _ (Nat.mod_lt _ (by decide))

theorem intPart_toDigits (n : Nat) : intPart (Nat.toDigits 10 n) = some (Nat.toDigits 10 n, []) := by
  rcases Nat.eq_zero_or_pos n with rfl | hn
  · rfl
  · obtain ⟨c, s, hs, hne, hc, hall⟩ := toDigits_pos hn
    have hdigits : digits s = (s, []) := by
      rw [digits, List.takeWhile_eq_self_iff.mpr hall, List.dropWhile_eq_nil_iff.mpr hall]
    rw [hs, intPart, if_neg hne, if_pos hc, hdigits]

theorem toDigits_head (n : Nat) : (Nat.toDigits 10 n).head? ≠ some '-' := by
  rcases Nat.eq_zero_or_pos n with rfl | hn
  · decide
  · obtain ⟨c, s, hs, -, hc, -⟩ := toDigits_pos hn
    rw [hs]
    rintro ⟨⟩
    exact absurd hc (by decide)

theorem lexNumber_intText (n : Int) : lexNumber (intText n) = some ((intText n, []), []) := by
  have hsigned : signedPart (intText n) = some (intText n, []) := by
    cases n with
    | ofNat n =>
        have hint := intPart_toDigits n
        have hhead := toDigits_head n
        rw [intText]
        cases hs : Nat.toDigits 10 n with
        | nil =>
            rw [hs] at hint
            cases hint
        | cons c s =>
            rw [hs] at hint hhead
            have hne : c ≠ '-' := fun h => hhead (congrArg some h)
            rw [signedPart, if_neg hne]
            exact hint
    | negSucc n =>
        rw [intText, signedPart, if_pos rfl, intPart_toDigits]
        rfl
  rw [lexNumber, hsigned]
  rfl

theorem intOf_intText (n : Int) : intOf (intText n) = n := by
  cases n with
  | ofNat n =>
      have hhead := toDigits_head n
      rw [intText, intOf]
      · rw [Nat.ofDigitChars_ten_toDigits]
        rfl
      · intro s hs
        exact hhead (by rw [hs]; rfl)
  | negSucc n =>
      rw [intText, intOf, Nat.ofDigitChars_ten_toDigits]
      rfl

/-! Strings, written with escapes for every character that is no printable ASCII. -/

def hex4 (n : Nat) : List Char :=
  [(n / 4096 % 16).digitChar, (n / 256 % 16).digitChar, (n / 16 % 16).digitChar, (n % 16).digitChar]

def unhex (c : Char) : Option Nat :=
  if c.isDigit then some (c.toNat - 48)
  else if 'a' ≤ c ∧ c ≤ 'f' then some (c.toNat - 87)
  else if 'A' ≤ c ∧ c ≤ 'F' then some (c.toNat - 55)
  else none

/-- Four hexadecimal digits and the rest. -/
def readHex : List Char → Option (Nat × List Char)
  | a :: b :: c :: d :: s =>
    match unhex a, unhex b, unhex c, unhex d with
    | some a, some b, some c, some d => some (4096 * a + 256 * b + 16 * c + d, s)
    | _, _, _, _ => none
  | _ => none

def isHigh (n : Nat) : Bool := 0xd800 ≤ n && n < 0xdc00

def isLow (n : Nat) : Bool := 0xdc00 ≤ n && n < 0xe000

/-- A character as it is written between the quotes. -/
def escapeChar (c : Char) : List Char :=
  if c = '"' then ['\\', '"']
  else if c = '\\' then ['\\', '\\']
  else if c = '\n' then ['\\', 'n']
  else if c = '\r' then ['\\', 'r']
  else if c = '\t' then ['\\', 't']
  else if c.toNat = 12 then ['\\', 'f']
  else if c.toNat = 8 then ['\\', 'b']
  else if 32 ≤ c.toNat ∧ c.toNat ≤ 126 then [c]
  else if c.toNat < 0x10000 then '\\' :: 'u' :: hex4 c.toNat
  else
    '\\' :: 'u' :: (hex4 (0xd800 + (c.toNat - 0x10000) / 1024) ++
      '\\' :: 'u' :: hex4 (0xdc00 + (c.toNat - 0x10000) % 1024))

def quote (s : String) : List Char := '"' :: (s.toList.flatMap escapeChar ++ ['"'])

/-- The escapes of one character. -/
def unescape (c : Char) : Option Char :=
  if c = '"' ∨ c = '\\' ∨ c = '/' then some c
  else if c = 'b' then some (Char.ofNat 8)
  else if c = 'f' then some (Char.ofNat 12)
  else if c = 'n' then some '\n'
  else if c = 'r' then some '\r'
  else if c = 't' then some '\t'
  else none

/-- What stands behind a backslash and a u. A surrogate without its pair is no
character of a text. -/
def readUnicode (s : List Char) : Option (Char × List Char) :=
  match readHex s with
  | none => none
  | some (n, s) =>
    if isHigh n then
      match s with
      | '\\' :: 'u' :: s =>
        match readHex s with
        | none => none
        | some (m, s) =>
            if isLow m then some (Char.ofNat (0x10000 + (n - 0xd800) * 1024 + (m - 0xdc00)), s)
            else none
      | _ => none
    else if isLow n then none
    else some (Char.ofNat n, s)

/-- What stands behind a backslash. -/
def readEscape : List Char → Option (Char × List Char)
  | [] => none
  | e :: s => if e = 'u' then readUnicode s else (unescape e).map fun c => (c, s)

/-- The next character of a string; none is its closing quote. -/
def readChar : List Char → Option (Option Char × List Char)
  | [] => none
  | c :: s =>
      if c = '"' then some (none, s)
      else if c = '\\' then (readEscape s).map fun r => (some r.1, r.2)
      else if c.toNat < 32 then none
      else some (some c, s)

/-- The characters up to the closing quote. -/
def readString : Nat → List Char → Option (List Char × List Char)
  | 0, _ => none
  | n + 1, s =>
    match readChar s with
    | none => none
    | some (none, s) => some ([], s)
    | some (some c, s) => (readString n s).map fun r => (c :: r.1, r.2)

theorem unhex_digitChar {n : Nat} (h : n < 16) : unhex n.digitChar = some n := by
  have hall : ∀ k < 16, unhex k.digitChar = some k := by decide
  exact hall n h

theorem readHex_hex4 {n : Nat} (h : n < 0x10000) (s : List Char) :
    readHex (hex4 n ++ s) = some (n, s) := by
  simp only [hex4, List.cons_append, List.nil_append, readHex]
  rw [unhex_digitChar (Nat.mod_lt _ (by decide)), unhex_digitChar (Nat.mod_lt _ (by decide)),
    unhex_digitChar (Nat.mod_lt _ (by decide)), unhex_digitChar (Nat.mod_lt _ (by decide))]
  simp only [Option.some.injEq, Prod.mk.injEq, and_true]
  omega

theorem char_valid (c : Char) : c.toNat < 0xd800 ∨ 0xdfff < c.toNat ∧ c.toNat < 0x110000 := c.valid

theorem isHigh_toNat (c : Char) : isHigh c.toNat = false := by
  have hvalid := char_valid c
  simp only [isHigh, Bool.and_eq_false_iff, decide_eq_false_iff_not]
  omega

theorem isLow_toNat (c : Char) : isLow c.toNat = false := by
  have hvalid := char_valid c
  simp only [isLow, Bool.and_eq_false_iff, decide_eq_false_iff_not]
  omega

theorem isHigh_pair {c : Char} (h : 0x10000 ≤ c.toNat) :
    isHigh (0xd800 + (c.toNat - 0x10000) / 1024) = true := by
  have hvalid := char_valid c
  simp only [isHigh, Bool.and_eq_true, decide_eq_true_eq]
  omega

theorem isLow_pair (c : Char) : isLow (0xdc00 + (c.toNat - 0x10000) % 1024) = true := by
  simp only [isLow, Bool.and_eq_true, decide_eq_true_eq]
  omega

theorem readUnicode_small {c : Char} (h : c.toNat < 0x10000) (s : List Char) :
    readUnicode (hex4 c.toNat ++ s) = some (c, s) := by
  rw [readUnicode, readHex_hex4 h]
  simp only [isHigh_toNat, isLow_toNat, Bool.false_eq_true, if_false, Char.ofNat_toNat]

theorem readUnicode_pair {c : Char} (h : 0x10000 ≤ c.toNat) (s : List Char) :
    readUnicode (hex4 (0xd800 + (c.toNat - 0x10000) / 1024) ++
      '\\' :: 'u' :: (hex4 (0xdc00 + (c.toNat - 0x10000) % 1024) ++ s)) = some (c, s) := by
  have hvalid := char_valid c
  have hsum : 0x10000 + (0xd800 + (c.toNat - 0x10000) / 1024 - 0xd800) * 1024 +
      (0xdc00 + (c.toNat - 0x10000) % 1024 - 0xdc00) = c.toNat := by omega
  rw [readUnicode, readHex_hex4 (by omega)]
  simp only [isHigh_pair h, if_true]
  rw [readHex_hex4 (by omega)]
  simp only [isLow_pair, if_true, hsum, Char.ofNat_toNat]

theorem readChar_unicode (s : List Char) : readChar ('\\' :: 'u' :: s) =
    (readUnicode s).map fun r => (some r.1, r.2) := by
  rw [readChar, if_neg (by decide), if_pos rfl, readEscape, if_pos rfl]

theorem readChar_escapeChar (c : Char) (s : List Char) :
    readChar (escapeChar c ++ s) = some (some c, s) := by
  rw [escapeChar]
  split
  · subst_vars
    rfl
  split
  · subst_vars
    rfl
  split
  · subst_vars
    rfl
  split
  · subst_vars
    rfl
  split
  · subst_vars
    rfl
  split
  · rename_i h
    have hc : c = Char.ofNat 12 := by rw [← h, Char.ofNat_toNat]
    subst hc
    rfl
  split
  · rename_i h
    have hc : c = Char.ofNat 8 := by rw [← h, Char.ofNat_toNat]
    subst hc
    rfl
  split
  · rename_i hquote hback _ _ _ _ _ h
    rw [List.singleton_append, readChar, if_neg hquote, if_neg hback, if_neg (by omega)]
  split
  · rename_i h
    simp only [List.cons_append]
    rw [readChar_unicode, readUnicode_small h]
    rfl
  · rename_i h
    simp only [List.cons_append, List.append_assoc]
    rw [readChar_unicode, readUnicode_pair (by omega)]
    rfl

theorem escapeChar_ne_nil (c : Char) : 0 < (escapeChar c).length := by
  rw [escapeChar]
  repeat' split
  all_goals simp

theorem readString_escape (cs : List Char) (s : List Char) {n : Nat}
    (h : (cs.flatMap escapeChar ++ ['"']).length ≤ n) :
    readString n (cs.flatMap escapeChar ++ '"' :: s) = some (cs, s) := by
  induction cs generalizing n with
  | nil =>
      obtain ⟨k, rfl⟩ : ∃ k, n = k + 1 := ⟨n - 1, by simp at h; omega⟩
      rfl
  | cons c cs ih =>
      have hlen := escapeChar_ne_nil c
      rw [List.flatMap_cons, List.append_assoc, List.length_append] at h
      obtain ⟨k, rfl⟩ : ∃ k, n = k + 1 := ⟨n - 1, by omega⟩
      rw [List.flatMap_cons, List.append_assoc, readString, readChar_escapeChar]
      simp only
      rw [ih (by omega)]
      rfl

theorem readHex_append {s : List Char} {r : Nat × List Char} (h : readHex s = some r)
    (t : List Char) : readHex (s ++ t) = some (r.1, r.2 ++ t) := by
  rw [readHex.eq_def] at h
  split at h
  · rename_i a b c d s
    split at h
    · rename_i ha hb hc hd
      cases h
      simp only [List.cons_append, readHex, ha, hb, hc, hd]
    · cases h
  · cases h

theorem readUnicode_append {s : List Char} {r : Char × List Char} (h : readUnicode s = some r)
    (t : List Char) : readUnicode (s ++ t) = some (r.1, r.2 ++ t) := by
  rw [readUnicode] at h
  cases hread : readHex s with
  | none =>
      rw [hread] at h
      cases h
  | some x =>
      obtain ⟨n, u⟩ := x
      rw [readUnicode, readHex_append hread]
      simp only [hread] at h ⊢
      split at h
      · rename_i hhigh
        rw [if_pos hhigh]
        split at h
        · rename_i v
          cases hlow : readHex v with
          | none =>
              rw [hlow] at h
              cases h
          | some y =>
              obtain ⟨m, w⟩ := y
              simp only [List.cons_append, hlow, readHex_append hlow] at h ⊢
              split at h
              · rename_i hm
                rw [if_pos hm, ← Option.some.inj h]
              · cases h
        · cases h
      · rename_i hhigh
        rw [if_neg hhigh]
        split at h
        · cases h
        · rename_i hlow
          cases h
          rw [if_neg hlow]

theorem readEscape_append {s : List Char} {r : Char × List Char} (h : readEscape s = some r)
    (t : List Char) : readEscape (s ++ t) = some (r.1, r.2 ++ t) := by
  cases s with
  | nil => cases h
  | cons e s =>
      rw [readEscape] at h
      rw [List.cons_append, readEscape]
      split at h
      · rename_i hu
        rw [if_pos hu]
        exact readUnicode_append h t
      · rename_i hu
        obtain ⟨c, hc, rfl⟩ := Option.map_eq_some_iff.mp h
        rw [if_neg hu, hc]
        rfl

theorem readChar_append {s : List Char} {r : Option Char × List Char} (h : readChar s = some r)
    (t : List Char) : readChar (s ++ t) = some (r.1, r.2 ++ t) := by
  cases s with
  | nil => cases h
  | cons c s =>
      rw [readChar] at h
      rw [List.cons_append, readChar]
      split at h
      · rename_i hquote
        cases h
        rw [if_pos hquote]
      · rename_i hquote
        rw [if_neg hquote]
        split at h
        · rename_i hback
          obtain ⟨x, hx, rfl⟩ := Option.map_eq_some_iff.mp h
          rw [if_pos hback, readEscape_append hx]
          rfl
        · rename_i hback
          split at h
          · cases h
          · rename_i hcontrol
            cases h
            rw [if_neg hback, if_neg hcontrol]

theorem readString_append {n m : Nat} (hnm : n ≤ m) {s : List Char} {r : List Char × List Char}
    (h : readString n s = some r) (t : List Char) :
    readString m (s ++ t) = some (r.1, r.2 ++ t) := by
  induction n generalizing m s r with
  | zero => cases h
  | succ n ih =>
      obtain ⟨k, rfl⟩ : ∃ k, m = k + 1 := ⟨m - 1, by omega⟩
      rw [readString] at h ⊢
      cases hread : readChar s with
      | none =>
          rw [hread] at h
          cases h
      | some x =>
          obtain ⟨c, u⟩ := x
          rw [readChar_append hread]
          rw [hread] at h
          cases c with
          | none =>
              cases h
              rfl
          | some c =>
              obtain ⟨y, hy, rfl⟩ := Option.map_eq_some_iff.mp h
              simp only
              rw [ih (by omega) hy]
              rfl

/-! Values. -/

/-- The floating point numbers of a language. A number whose text is one of a
finite number is read back from it. -/
structure Floats where
  Num : Type
  repr : Num → List Char
  parse : List Char → Num
  parse_repr : ∀ x i e, lexNumber (repr x) = some ((i, e), []) → e ≠ [] → parse (repr x) = x

def Floats.IsFinite (fl : Floats) (x : fl.Num) : Prop :=
  ∃ i e, lexNumber (fl.repr x) = some ((i, e), []) ∧ e ≠ []

/-- A single float, for data without floats. -/
def Floats.single : Floats where
  Num := Unit
  repr _ := "0.0".toList
  parse _ := ()
  parse_repr _ _ _ _ _ := rfl

inductive Value (F : Type)
  | null
  | bool (b : Bool)
  | int (n : Int)
  | float (x : F)
  | str (s : String)
  | arr (vs : List (Value F))
  | obj (members : List (String × Value F))

/-- The items behind the first one, and the closing bracket. -/
def others (close : Char) : List (List Char) → List Char
  | [] => [close]
  | text :: texts => ',' :: ' ' :: (text ++ others close texts)

def listed (close : Char) : List (List Char) → List Char
  | [] => [close]
  | text :: texts => text ++ others close texts

section Texts

variable (fl : Floats)

mutual

/-- json.dumps -/
def dumps : Value fl.Num → List Char
  | .null => "null".toList
  | .bool b => if b then "true".toList else "false".toList
  | .int n => intText n
  | .float x => fl.repr x
  | .str s => quote s
  | .arr vs => '[' :: listed ']' (dumpsAll vs)
  | .obj ms => '{' :: listed '}' (dumpsMembers ms)

def dumpsAll : List (Value fl.Num) → List (List Char)
  | [] => []
  | v :: vs => dumps v :: dumpsAll vs

def dumpsMembers : List (String × Value fl.Num) → List (List Char)
  | [] => []
  | (k, v) :: ms => (quote k ++ ':' :: ' ' :: dumps v) :: dumpsMembers ms

end

mutual

/-- The data that have a JSON text: numbers are finite and no dict has a key twice. -/
def Ok : Value fl.Num → Prop
  | .float x => fl.IsFinite x
  | .arr vs => OkAll vs
  | .obj ms => (ms.map Prod.fst).Nodup ∧ OkMembers ms
  | _ => True

def OkAll : List (Value fl.Num) → Prop
  | [] => True
  | v :: vs => Ok v ∧ OkAll vs

def OkMembers : List (String × Value fl.Num) → Prop
  | [] => True
  | (_, v) :: ms => Ok v ∧ OkMembers ms

end

end Texts

def isBlank (c : Char) : Bool := c = ' ' || c = '\t' || c = '\n' || c = '\r'

def skip (s : List Char) : List Char := s.dropWhile isBlank

section Parser

variable {α : Type}

/-- The items behind the first one, up to the closing bracket. -/
def items (item : List Char → Option (α × List Char)) (close : Char) :
    Nat → List Char → Option (List α × List Char)
  | 0, _ => none
  | n + 1, s =>
    match skip s with
    | [] => none
    | c :: s =>
        if c = close then some ([], s)
        else if c = ',' then
          match item (skip s) with
          | none => none
          | some (x, s) => (items item close n s).map fun r => (x :: r.1, r.2)
        else none

/-- What stands behind an opening bracket. -/
def bracketed (item : List Char → Option (α × List Char)) (close : Char) (n : Nat)
    (s : List Char) : Option (List α × List Char) :=
  match skip s with
  | [] => none
  | c :: s =>
      if c = close then some ([], s)
      else
        match item (c :: s) with
        | none => none
        | some (x, s) => (items item close n s).map fun r => (x :: r.1, r.2)

/-- A key, a colon and a value. -/
def member (n : Nat) (value : List Char → Option (α × List Char)) :
    List Char → Option ((String × α) × List Char)
  | [] => none
  | c :: s =>
      if c = '"' then
        match readString n s with
        | none => none
        | some (key, s) =>
          match skip s with
          | [] => none
          | c :: s =>
              if c = ':' then
                (value (skip s)).map fun r => ((String.ofList key, r.1), r.2)
              else none
      else none

/-- A dict keeps the place of a key it has already, and takes the new value. -/
def setItem : List (String × α) → String × α → List (String × α)
  | [], m => [m]
  | (k, v) :: ms, m => if k = m.1 then m :: ms else (k, v) :: setItem ms m

def dict (ms : List (String × α)) : List (String × α) := ms.foldl setItem []

def literal (word : String) (v : α) (s : List Char) : Option (α × List Char) :=
  if word.toList <+: s then some (v, s.drop word.toList.length) else none

variable (fl : Floats)

def number (s : List Char) : Option (Value fl.Num × List Char) :=
  (lexNumber s).map fun r =>
    (if r.1.2 = [] then .int (intOf r.1.1) else .float (fl.parse (r.1.1 ++ r.1.2)), r.2)

/-- NaN and the infinities are read, though JSON has no such numbers. -/
def words : List (String × Value fl.Num) :=
  [("null", .null), ("true", .bool true), ("false", .bool false),
    ("NaN", .float (fl.parse "NaN".toList)), ("Infinity", .float (fl.parse "Infinity".toList)),
    ("-Infinity", .float (fl.parse "-Infinity".toList))]

def word (s : List Char) : Option (Value fl.Num × List Char) :=
  (words fl).findSome? fun w => literal w.1 w.2 s

/-- A value and the rest of the text; none is a JSONDecodeError. -/
def parseValue : Nat → List Char → Option (Value fl.Num × List Char)
  | 0, _ => none
  | _ + 1, [] => none
  | n + 1, c :: s =>
      if c = '"' then (readString n s).map fun r => (.str (String.ofList r.1), r.2)
      else if c = '{' then
        (bracketed (member n (parseValue n)) '}' n s).map fun r => (.obj (dict r.1), r.2)
      else if c = '[' then (bracketed (parseValue n) ']' n s).map fun r => (.arr r.1, r.2)
      else
        match word fl (c :: s) with
        | some r => some r
        | none => number fl (c :: s)

/-- json.loads -/
def loads (s : List Char) : Option (Value fl.Num) :=
  match parseValue fl (s.length + 1) (skip s) with
  | none => none
  | some (v, rest) => if skip rest = [] then some v else none

end Parser

/-! More text behind a value that was read. -/

section Append

variable {α : Type}

theorem skip_append {s u : List Char} {c : Char} (h : skip s = c :: u) (t : List Char) :
    skip (s ++ t) = c :: (u ++ t) := by
  rw [skip] at h
  rw [skip, List.dropWhile_append, h]
  rfl

theorem ends_of_skip {s u : List Char} {c : Char} (h : skip s = c :: u)
    (hc : continues c = false) (t : List Char) : Ends (s ++ t) := by
  cases s with
  | nil => cases h
  | cons d s =>
      rintro _ ⟨⟩
      cases hd : isBlank d with
      | true =>
          have hall : d = ' ' ∨ d = '\t' ∨ d = '\n' ∨ d = '\r' := by
            simpa [isBlank, or_assoc] using hd
          rcases hall with rfl | rfl | rfl | rfl <;> decide
      | false =>
          rw [skip, List.dropWhile_cons_of_neg (by simp [hd])] at h
          cases h
          exact hc

/-- A reader finds in a longer text what the other has found in its beginning. -/
structure Extends (item item' : List Char → Option (α × List Char)) : Prop where
  nil : item [] = none
  more : ∀ s r t, item s = some r → Ends (r.2 ++ t) → item' (s ++ t) = some (r.1, r.2 ++ t)

theorem skip_append_of_some {item : List Char → Option (α × List Char)} (hnil : item [] = none)
    {s : List Char} {r : α × List Char} (h : item (skip s) = some r) (t : List Char) :
    skip (s ++ t) = skip s ++ t := by
  cases hskip : skip s with
  | nil =>
      rw [hskip, hnil] at h
      cases h
  | cons c u => exact skip_append hskip t

variable {item item' : List Char → Option (α × List Char)} {close : Char}

theorem items_ends (hclose : continues close = false) {n : Nat} {s : List Char}
    {r : List α × List Char} (h : items item close n s = some r) (t : List Char) :
    Ends (s ++ t) := by
  cases n with
  | zero => cases h
  | succ n =>
      rw [items] at h
      cases hskip : skip s with
      | nil =>
          rw [hskip] at h
          cases h
      | cons c u =>
          rw [hskip] at h
          simp only at h
          refine ends_of_skip hskip ?_ t
          split at h
          · rename_i hc
            rw [hc, hclose]
          · split at h
            · rename_i hc
              rw [hc]
              decide
            · cases h

theorem items_append (hclose : continues close = false) (hitem : Extends item item') {n m : Nat}
    (hnm : n ≤ m) {s : List Char} {r : List α × List Char} (h : items item close n s = some r)
    (t : List Char) : items item' close m (s ++ t) = some (r.1, r.2 ++ t) := by
  induction n generalizing m s r with
  | zero => cases h
  | succ n ih =>
      obtain ⟨k, rfl⟩ : ∃ k, m = k + 1 := ⟨m - 1, by omega⟩
      rw [items] at h ⊢
      cases hskip : skip s with
      | nil =>
          rw [hskip] at h
          cases h
      | cons c u =>
          rw [skip_append hskip]
          rw [hskip] at h
          simp only at h ⊢
          split at h
          · rename_i hc
            cases h
            rw [if_pos hc]
          · rename_i hc
            rw [if_neg hc]
            split at h
            · rename_i hcomma
              rw [if_pos hcomma]
              cases hread : item (skip u) with
              | none =>
                  rw [hread] at h
                  cases h
              | some x =>
                  obtain ⟨x, v⟩ := x
                  rw [hread] at h
                  obtain ⟨y, hy, rfl⟩ := Option.map_eq_some_iff.mp h
                  have hends := items_ends hclose hy t
                  rw [skip_append_of_some hitem.nil hread, hitem.more _ _ _ hread hends]
                  simp only
                  rw [ih (by omega) hy]
                  rfl
            · cases h

theorem bracketed_append (hclose : continues close = false) (hitem : Extends item item') {n m : Nat}
    (hnm : n ≤ m) {s : List Char} {r : List α × List Char}
    (h : bracketed item close n s = some r) (t : List Char) :
    bracketed item' close m (s ++ t) = some (r.1, r.2 ++ t) := by
  rw [bracketed] at h ⊢
  cases hskip : skip s with
  | nil =>
      rw [hskip] at h
      cases h
  | cons c u =>
      rw [skip_append hskip]
      rw [hskip] at h
      simp only at h ⊢
      split at h
      · rename_i hc
        cases h
        rw [if_pos hc]
      · rename_i hc
        rw [if_neg hc]
        cases hread : item (c :: u) with
        | none =>
            rw [hread] at h
            cases h
        | some x =>
            obtain ⟨x, v⟩ := x
            rw [hread] at h
            obtain ⟨y, hy, rfl⟩ := Option.map_eq_some_iff.mp h
            rw [← List.cons_append, hitem.more _ _ _ hread (items_ends hclose hy t)]
            simp only
            rw [items_append hclose hitem hnm hy]
            rfl

theorem member_extends {n m : Nat} (hnm : n ≤ m) (hitem : Extends item item') :
    Extends (member n item) (member m item') where
  nil := rfl
  more := by
    intro s r t h hends
    cases s with
    | nil => cases h
    | cons c s =>
        rw [member] at h
        rw [List.cons_append, member]
        split at h
        · rename_i hquote
          rw [if_pos hquote]
          cases hkey : readString n s with
          | none =>
              rw [hkey] at h
              cases h
          | some x =>
              obtain ⟨key, u⟩ := x
              rw [readString_append hnm hkey]
              rw [hkey] at h
              simp only at h ⊢
              cases hskip : skip u with
              | nil =>
                  rw [hskip] at h
                  cases h
              | cons d v =>
                  rw [skip_append hskip]
                  rw [hskip] at h
                  simp only at h ⊢
                  split at h
                  · rename_i hcolon
                    obtain ⟨y, hy, rfl⟩ := Option.map_eq_some_iff.mp h
                    rw [if_pos hcolon, skip_append_of_some hitem.nil hy, hitem.more _ _ _ hy hends]
                    rfl
                  · cases h
        · cases h

end Append

theorem intPart_head {s : List Char} {r : List Char × List Char} (h : intPart s = some r) :
    ∃ c u, s = c :: u ∧ c.isDigit = true := by
  cases s with
  | nil => cases h
  | cons c s =>
      rw [intPart] at h
      split at h
      · rename_i hzero
        exact ⟨c, s, rfl, by rw [hzero]; decide⟩
      · split at h
        · rename_i hdigit
          exact ⟨c, s, rfl, hdigit⟩
        · cases h

theorem lexNumber_head {s : List Char} {r : (List Char × List Char) × List Char}
    (h : lexNumber s = some r) : ∃ c u, s = c :: u ∧
      (c.isDigit = true ∨ c = '-' ∧ ¬ "Infinity".toList <+: u) := by
  obtain ⟨i, hi, -⟩ := Option.map_eq_some_iff.mp h
  cases s with
  | nil => cases hi
  | cons c s =>
      rw [signedPart] at hi
      split at hi
      · rename_i hsign
        obtain ⟨j, hj, -⟩ := Option.map_eq_some_iff.mp hi
        obtain ⟨d, u, hs, hd⟩ := intPart_head hj
        refine ⟨c, s, rfl, Or.inr ⟨hsign, ?_⟩⟩
        rintro ⟨v, hv⟩
        rw [hs] at hv
        cases hv
        exact absurd hd (by decide)
      · obtain ⟨d, u, hs, hd⟩ := intPart_head hi
        cases hs
        exact ⟨c, s, rfl, Or.inl hd⟩

section Reader

variable (fl : Floats)

theorem word_cases {s : List Char} {r : Value fl.Num × List Char} (h : word fl s = some r) :
    ∃ w ∈ words fl, s = w.1.toList ++ r.2 ∧ r.1 = w.2 := by
  obtain ⟨w, hw, hread⟩ := List.exists_of_findSome?_eq_some h
  rw [literal] at hread
  split at hread
  · rename_i hstem
    cases hread
    exact ⟨w, hw, (List.prefix_iff_eq_append.mp hstem).symm, rfl⟩
  · cases hread

theorem word_append {s : List Char} {r : Value fl.Num × List Char} (h : word fl s = some r)
    (t : List Char) : word fl (s ++ t) = some (r.1, r.2 ++ t) := by
  obtain ⟨w, hw, rfl, hr⟩ := word_cases fl h
  rw [hr]
  simp only [words, List.mem_cons, List.not_mem_nil, or_false] at hw
  rcases hw with rfl | rfl | rfl | rfl | rfl | rfl <;>
    simp [word, words, literal, List.cons_prefix_cons]

theorem word_number {s : List Char} {r : (List Char × List Char) × List Char}
    (h : lexNumber s = some r) : word fl s = none := by
  obtain ⟨c, u, rfl, hc⟩ := lexNumber_head h
  by_contra hsome
  obtain ⟨r, hr⟩ := Option.ne_none_iff_exists'.mp hsome
  obtain ⟨w, hw, hs, -⟩ := word_cases fl hr
  simp only [words, List.mem_cons, List.not_mem_nil, or_false] at hw
  rcases hw with rfl | rfl | rfl | rfl | rfl | rfl <;>
    · have hhead := congrArg List.head? hs
      have htail := congrArg List.tail hs
      simp at hhead htail
      subst hhead htail
      rcases hc with hc | ⟨hc, hinf⟩
      · exact absurd hc (by decide)
      · first
          | exact absurd hc (by decide)
          | exact hinf (by simp [List.cons_prefix_cons])

/-- A text that starts with a number is read as one. -/
theorem parseValue_number {s : List Char} {r : (List Char × List Char) × List Char}
    (h : lexNumber s = some r) (n : Nat) : parseValue fl (n + 1) s = number fl s := by
  have hword := word_number fl h
  obtain ⟨c, u, rfl, hc⟩ := lexNumber_head h
  have hne : ∀ d, d.isDigit = false → d ≠ '-' → c ≠ d := by
    rintro d hd hsign rfl
    rcases hc with hc | ⟨hc, -⟩
    · rw [hd] at hc
      cases hc
    · exact hsign hc
  rw [parseValue, if_neg (hne _ (by decide) (by decide)), if_neg (hne _ (by decide) (by decide)),
    if_neg (hne _ (by decide) (by decide)), hword]

theorem number_append {s t : List Char} {r : Value fl.Num × List Char} (h : number fl s = some r)
    (hends : Ends (r.2 ++ t)) : number fl (s ++ t) = some (r.1, r.2 ++ t) := by
  obtain ⟨x, hx, rfl⟩ := Option.map_eq_some_iff.mp h
  rw [number, lexNumber_append hx hends]
  rfl

/-- More text, and more steps, change nothing on what was read; an object is
read to its closing bracket, so that anything may follow it. -/
theorem parseValue_append {n m : Nat} (hnm : n ≤ m) {s t : List Char}
    {r : Value fl.Num × List Char} (h : parseValue fl n s = some r)
    (hends : s.head? = some '{' ∨ Ends (r.2 ++ t)) :
    parseValue fl m (s ++ t) = some (r.1, r.2 ++ t) := by
  induction n generalizing m s r t with
  | zero => cases h
  | succ n ih =>
      obtain ⟨k, rfl⟩ : ∃ k, m = k + 1 := ⟨m - 1, by omega⟩
      have hvalue : Extends (parseValue fl n) (parseValue fl k) := by
        refine ⟨?_, fun s r t h hends => ih (by omega) h (Or.inr hends)⟩
        cases n <;> rfl
      cases s with
      | nil => cases h
      | cons c s =>
          rw [parseValue] at h
          split at h
          · rename_i hc
            obtain ⟨x, hx, rfl⟩ := Option.map_eq_some_iff.mp h
            rw [List.cons_append, parseValue, if_pos hc, readString_append (by omega) hx]
            rfl
          rename_i hquote
          split at h
          · rename_i hc
            obtain ⟨x, hx, rfl⟩ := Option.map_eq_some_iff.mp h
            rw [List.cons_append, parseValue, if_neg hquote, if_pos hc,
              bracketed_append (by decide) (member_extends (by omega) hvalue) (by omega) hx]
            rfl
          rename_i hbrace
          have hends : Ends (r.2 ++ t) :=
            hends.resolve_left fun hhead => hbrace (Option.some.inj hhead)
          split at h
          · rename_i hc
            obtain ⟨x, hx, rfl⟩ := Option.map_eq_some_iff.mp h
            rw [List.cons_append, parseValue, if_neg hquote, if_neg hbrace, if_pos hc,
              bracketed_append (by decide) hvalue (by omega) hx]
            rfl
          rename_i hbracket
          cases hword : word fl (c :: s) with
          | some x =>
              rw [hword] at h
              cases h
              have hmore := word_append fl hword t
              rw [List.cons_append] at hmore
              rw [List.cons_append, parseValue, if_neg hquote, if_neg hbrace, if_neg hbracket, hmore]
          | none =>
              rw [hword] at h
              have hmore := number_append fl h hends
              obtain ⟨y, hy, -⟩ := Option.map_eq_some_iff.mp hmore
              rw [parseValue_number fl hy, hmore]

end Reader

/-! What is written is read back. -/

/-- No text of a value starts with a blank or a closing bracket. -/
def starts (c : Char) : Bool := !(isBlank c || c = ']' || c = '}')

/-- A reader reads a text as a value wherever the text ends. -/
structure Reads {α : Type} (item : List Char → Option (α × List Char)) (text : List Char) (x : α) :
    Prop where
  read : ∀ rest, Ends rest → item (text ++ rest) = some (x, rest)
  head : ∃ c u, text = c :: u ∧ starts c = true

theorem skip_of_not_blank {c : Char} (h : isBlank c = false) (s : List Char) :
    skip (c :: s) = c :: s :=
  List.dropWhile_cons_of_neg (by simp [h])

theorem skip_space (s : List Char) : skip (' ' :: s) = skip s :=
  List.dropWhile_cons_of_pos (by decide)

section Lists

variable {α : Type} {item : List Char → Option (α × List Char)}

theorem Reads.skip_text {text : List Char} {x : α} (h : Reads item text x) (rest : List Char) :
    skip (text ++ rest) = text ++ rest := by
  obtain ⟨c, u, rfl, hc⟩ := h.head
  simp only [starts, Bool.not_eq_true', Bool.or_eq_false_iff] at hc
  exact skip_of_not_blank hc.1.1 _

theorem ends_cons {c : Char} (h : continues c = false) (s : List Char) : Ends (c :: s) := by
  rintro _ ⟨⟩
  exact h

theorem others_ends {close : Char} (h : continues close = false) (texts : List (List Char))
    (rest : List Char) : Ends (others close texts ++ rest) := by
  cases texts with
  | nil => exact ends_cons h _
  | cons text texts => exact ends_cons (by decide) _

variable {close : Char} (hclose : close = ']' ∨ close = '}')

include hclose

theorem items_others {texts : List (List Char)} {xs : List α}
    (h : List.Forall₂ (Reads item) texts xs) (rest : List Char) {n : Nat}
    (hn : (others close texts).length ≤ n) :
    items item close n (others close texts ++ rest) = some (xs, rest) := by
  have hcontinues : continues close = false := by rcases hclose with rfl | rfl <;> decide
  have hblank : isBlank close = false := by rcases hclose with rfl | rfl <;> decide
  have hcomma : ',' ≠ close := by rcases hclose with rfl | rfl <;> decide
  induction h generalizing n with
  | nil =>
      obtain ⟨k, rfl⟩ : ∃ k, n = k + 1 := ⟨n - 1, by simp [others] at hn; omega⟩
      rw [others, List.singleton_append, items, skip_of_not_blank hblank]
      exact if_pos rfl
  | @cons text x texts xs hread _ ih =>
      simp only [others, List.length_cons, List.length_append] at hn
      obtain ⟨k, rfl⟩ : ∃ k, n = k + 1 := ⟨n - 1, by omega⟩
      have hskip : skip (' ' :: (text ++ others close texts ++ rest)) =
          text ++ (others close texts ++ rest) := by
        rw [skip_space, List.append_assoc, hread.skip_text]
      rw [others, List.cons_append, List.cons_append, items, skip_of_not_blank (by decide)]
      simp only
      rw [if_neg hcomma, if_pos trivial, hskip, hread.read _ (others_ends hcontinues texts rest)]
      simp only
      rw [ih (by omega)]
      rfl

theorem bracketed_listed {texts : List (List Char)} {xs : List α}
    (h : List.Forall₂ (Reads item) texts xs) (rest : List Char) {n : Nat}
    (hn : (listed close texts).length ≤ n) :
    bracketed item close n (listed close texts ++ rest) = some (xs, rest) := by
  have hcontinues : continues close = false := by rcases hclose with rfl | rfl <;> decide
  have hblank : isBlank close = false := by rcases hclose with rfl | rfl <;> decide
  cases h with
  | nil =>
      rw [listed, List.singleton_append, bracketed, skip_of_not_blank hblank]
      exact if_pos rfl
  | @cons text x texts xs hread hall =>
      rw [listed, List.length_append] at hn
      have hitems := items_others hclose hall rest (n := n) (by omega)
      have hfirst := hread.read _ (others_ends hcontinues texts rest)
      have hskip := hread.skip_text (others close texts ++ rest)
      obtain ⟨c, u, rfl, hc⟩ := hread.head
      have hne : c ≠ close := by
        rintro rfl
        rcases hclose with rfl | rfl <;> cases hc
      rw [listed, List.append_assoc, bracketed, hskip, List.cons_append]
      simp only
      rw [if_neg hne, ← List.cons_append, hfirst]
      simp only
      rw [hitems]
      rfl

end Lists

theorem setItem_new {α : Type} {ms : List (String × α)} {m : String × α}
    (h : m.1 ∉ ms.map Prod.fst) : setItem ms m = ms ++ [m] := by
  induction ms with
  | nil => rfl
  | cons p ms ih =>
      obtain ⟨hne, hnot⟩ := not_or.mp (List.mem_cons.not.mp h)
      rw [setItem, if_neg fun hp => hne hp.symm, ih hnot]
      rfl

theorem dict_nodup {α : Type} {ms : List (String × α)} (h : (ms.map Prod.fst).Nodup) :
    dict ms = ms := by
  have happend : ∀ front : List (String × α), ((front ++ ms).map Prod.fst).Nodup →
      ms.foldl setItem front = front ++ ms := by
    clear h
    induction ms with
    | nil => simp
    | cons m ms ih =>
        intro front hnodup
        have hnew : m.1 ∉ front.map Prod.fst := by
          rw [List.map_append, List.nodup_append] at hnodup
          intro hmem
          exact hnodup.2.2 _ hmem _ (by simp) rfl
        rw [List.foldl_cons, setItem_new hnew, ih _ (by simpa using hnodup)]
        simp
  exact happend [] h

theorem Reads.pair {fl : Floats} {n : Nat} {v : Value fl.Num} {text : List Char}
    (h : Reads (parseValue fl n) text v) (k : String) (hk : (quote k).length ≤ n + 1) :
    Reads (member n (parseValue fl n)) (quote k ++ ':' :: ' ' :: text) (k, v) where
  read := by
    intro rest hrest
    have hkey := readString_escape k.toList (':' :: ' ' :: (text ++ rest)) (n := n) (by
      simpa [quote] using hk)
    have hskip : skip (' ' :: (text ++ rest)) = text ++ rest := by
      rw [skip_space, h.skip_text]
    have htext : quote k ++ ':' :: ' ' :: text ++ rest =
        '"' :: (k.toList.flatMap escapeChar ++ '"' :: ':' :: ' ' :: (text ++ rest)) := by
      simp [quote]
    rw [htext, member, if_pos rfl, hkey]
    simp only
    rw [skip_of_not_blank (by decide)]
    simp only
    rw [if_pos trivial, hskip, h.read rest hrest]
    simp
  head := ⟨'"', _, rfl, by decide⟩

section RoundTrip

variable (fl : Floats)

theorem number_starts {s : List Char} {r : (List Char × List Char) × List Char}
    (h : lexNumber s = some r) : ∃ c u, s = c :: u ∧ starts c = true := by
  obtain ⟨c, u, hs, hc⟩ := lexNumber_head h
  refine ⟨c, u, hs, ?_⟩
  by_contra hno
  simp only [starts, isBlank, Bool.not_eq_true', Bool.not_eq_false, Bool.or_eq_true,
    decide_eq_true_eq] at hno
  rcases hno with (((((rfl | rfl) | rfl) | rfl) | rfl) | rfl) <;> simp at hc

theorem reads_number {text : List Char} {i e : List Char} {v : Value fl.Num}
    (h : lexNumber text = some ((i, e), []))
    (hv : (if e = [] then Value.int (intOf i) else .float (fl.parse (i ++ e))) = v) (n : Nat) :
    Reads (parseValue fl (n + 1)) text v where
  read := by
    intro rest hrest
    have hmore := lexNumber_append h (t := rest) hrest
    rw [parseValue_number fl hmore, number, hmore, ← hv]
    rfl
  head := number_starts h

theorem reads_word {w : String × Value fl.Num} (hw : w ∈ words fl) (n : Nat) :
    Reads (parseValue fl (n + 1)) w.1.toList w.2 where
  read := by
    intro rest _
    have hword : word fl (w.1.toList ++ rest) = some (w.2, rest) := by
      simp only [words, List.mem_cons, List.not_mem_nil, or_false] at hw
      rcases hw with rfl | rfl | rfl | rfl | rfl | rfl <;>
        simp [word, words, literal, List.cons_prefix_cons]
    have hhead : ∃ c u, w.1.toList = c :: u ∧ c ≠ '"' ∧ c ≠ '{' ∧ c ≠ '[' := by
      simp only [words, List.mem_cons, List.not_mem_nil, or_false] at hw
      rcases hw with rfl | rfl | rfl | rfl | rfl | rfl <;> simp
    obtain ⟨c, u, hc, hquote, hbrace, hbracket⟩ := hhead
    rw [hc] at hword ⊢
    rw [List.cons_append] at hword ⊢
    rw [parseValue, if_neg hquote, if_neg hbrace, if_neg hbracket, hword]
  head := by
    simp only [words, List.mem_cons, List.not_mem_nil, or_false] at hw
    rcases hw with rfl | rfl | rfl | rfl | rfl | rfl <;> simp [starts, isBlank]

theorem others_last (close : Char) (texts : List (List Char)) :
    ∃ u, others close texts = u ++ [close] := by
  induction texts with
  | nil => exact ⟨[], rfl⟩
  | cons text texts ih =>
      obtain ⟨u, hu⟩ := ih
      exact ⟨',' :: ' ' :: (text ++ u), by simp [others, hu]⟩

theorem listed_last (close : Char) (texts : List (List Char)) :
    ∃ u, listed close texts = u ++ [close] := by
  cases texts with
  | nil => exact ⟨[], rfl⟩
  | cons text texts =>
      obtain ⟨u, hu⟩ := others_last close texts
      exact ⟨text ++ u, by simp [listed, hu]⟩

theorem length_others (close : Char) {texts : List (List Char)} {text : List Char}
    (h : text ∈ texts) : text.length < (others close texts).length := by
  induction texts with
  | nil => cases h
  | cons first texts ih =>
      simp only [others, List.length_cons, List.length_append]
      rcases List.mem_cons.mp h with rfl | h
      · omega
      · have := ih h
        omega

theorem length_listed (close : Char) {texts : List (List Char)} {text : List Char}
    (h : text ∈ texts) : text.length < (listed close texts).length := by
  cases texts with
  | nil => cases h
  | cons first texts =>
      rw [listed, List.length_append]
      rcases List.mem_cons.mp h with rfl | h
      · cases texts <;> simp [others]
      · have := length_others close h
        omega

mutual

theorem reads_dumps : ∀ v : Value fl.Num, Ok fl v → ∀ n, (dumps fl v).length ≤ n →
    Reads (parseValue fl n) (dumps fl v) v := by
  intro v hok n hn
  have hpos : 0 < (dumps fl v).length := by
    cases v with
    | null => simp [dumps]
    | bool b => cases b <;> simp [dumps]
    | int n =>
        obtain ⟨c, u, hs, -⟩ := number_starts (lexNumber_intText n)
        simp [dumps, hs]
    | float x =>
        obtain ⟨i, e, hx, -⟩ := (hok : fl.IsFinite x)
        obtain ⟨c, u, hs, -⟩ := number_starts hx
        simp [dumps, hs]
    | str s => simp [dumps, quote]
    | arr vs => simp [dumps]
    | obj ms => simp [dumps]
  obtain ⟨k, rfl⟩ : ∃ k, n = k + 1 := ⟨n - 1, by omega⟩
  cases v with
  | null => exact reads_word fl (w := ("null", .null)) (by simp [words]) k
  | bool b =>
      cases b with
      | true => exact reads_word fl (w := ("true", .bool true)) (by simp [words]) k
      | false => exact reads_word fl (w := ("false", .bool false)) (by simp [words]) k
  | int n =>
      refine reads_number fl (lexNumber_intText n) ?_ k
      rw [if_pos rfl, intOf_intText]
  | float x =>
      obtain ⟨i, e, hx, he⟩ := (hok : fl.IsFinite x)
      refine reads_number fl hx ?_ k
      have htext := lexNumber_text hx
      rw [List.append_nil] at htext
      rw [if_neg he, ← htext, fl.parse_repr x i e hx he]
  | str s =>
      refine ⟨fun rest _ => ?_, '"', _, rfl, by decide⟩
      have hkey := readString_escape s.toList rest (n := k) (by simpa [dumps, quote] using hn)
      have htext : dumps fl (.str s) ++ rest = '"' :: (s.toList.flatMap escapeChar ++ '"' :: rest) := by
        simp [dumps, quote]
      rw [htext, parseValue, if_pos rfl, hkey]
      simp
  | arr vs =>
      refine ⟨fun rest _ => ?_, '[', _, rfl, by decide⟩
      rw [dumps, List.length_cons] at hn
      have hall := reads_dumpsAll vs hok k fun text htext =>
        (length_listed ']' htext).le.trans (by omega)
      rw [dumps, List.cons_append, parseValue, if_neg (by decide), if_neg (by decide), if_pos rfl,
        bracketed_listed (Or.inl rfl) hall rest (by omega)]
      rfl
  | obj ms =>
      refine ⟨fun rest _ => ?_, '{', _, rfl, by decide⟩
      rw [dumps, List.length_cons] at hn
      have hall := reads_dumpsMembers ms hok.2 k fun text htext =>
        (length_listed '}' htext).le.trans (by omega)
      rw [dumps, List.cons_append, parseValue, if_neg (by decide), if_pos rfl,
        bracketed_listed (Or.inr rfl) hall rest (by omega)]
      simp only [Option.map_some]
      rw [dict_nodup hok.1]

theorem reads_dumpsAll : ∀ vs : List (Value fl.Num), OkAll fl vs → ∀ n,
    (∀ text ∈ dumpsAll fl vs, text.length ≤ n) →
    List.Forall₂ (Reads (parseValue fl n)) (dumpsAll fl vs) vs := by
  intro vs hok n hn
  cases vs with
  | nil => exact .nil
  | cons v vs =>
      refine .cons (reads_dumps v hok.1 n ?_) (reads_dumpsAll vs hok.2 n ?_)
      · exact hn _ List.mem_cons_self
      · exact fun text htext => hn text (List.mem_cons_of_mem _ htext)

theorem reads_dumpsMembers : ∀ ms : List (String × Value fl.Num), OkMembers fl ms → ∀ n,
    (∀ text ∈ dumpsMembers fl ms, text.length ≤ n) →
    List.Forall₂ (Reads (member n (parseValue fl n))) (dumpsMembers fl ms) ms := by
  intro ms hok n hn
  cases ms with
  | nil => exact .nil
  | cons m ms =>
      obtain ⟨k, v⟩ := m
      have hfirst := hn _ List.mem_cons_self
      simp only [List.length_append, List.length_cons] at hfirst
      refine .cons (Reads.pair (reads_dumps v hok.1 n (by omega)) k (by omega)) ?_
      exact reads_dumpsMembers ms hok.2 n fun text htext => hn text (List.mem_cons_of_mem _ htext)

end

/-- What is written is read back. -/
theorem loads_dumps {v : Value fl.Num} (h : Ok fl v) : loads fl (dumps fl v) = some v := by
  have hread := reads_dumps fl v h ((dumps fl v).length + 1) (by omega)
  have hparse := hread.read [] (by rintro _ ⟨⟩)
  have hskip := hread.skip_text []
  rw [List.append_nil] at hparse hskip
  rw [loads, hskip, hparse]
  rfl

/-- An object that is cut off anywhere is no JSON text. -/
theorem loads_cut {ms : List (String × Value fl.Num)} (h : Ok fl (.obj ms)) {s t : List Char}
    (hs : dumps fl (.obj ms) = s ++ t) (ht : t ≠ []) : loads fl s = none := by
  by_contra hsome
  obtain ⟨w, hw⟩ := Option.ne_none_iff_exists'.mp hsome
  cases s with
  | nil => cases hw
  | cons c s =>
      have hc : c = '{' := by
        rw [dumps, List.cons_append] at hs
        exact (List.cons.inj hs).1.symm
      subst hc
      rw [loads, skip_of_not_blank (by decide)] at hw
      cases hparse : parseValue fl (('{' :: s).length + 1) ('{' :: s) with
      | none =>
          rw [hparse] at hw
          cases hw
      | some r =>
          -- the whole text is read as the same value, with t left over
          let n := (dumps fl (.obj ms)).length + ('{' :: s).length + 1
          have hmore := parseValue_append fl (m := n) (by omega) (t := t) hparse (Or.inl rfl)
          have hwhole := (reads_dumps fl _ h n (by omega)).read [] (by rintro _ ⟨⟩)
          rw [List.append_nil, hs, hmore] at hwhole
          have hrest := (Prod.mk.inj (Option.some.inj hwhole)).2
          exact ht (List.append_eq_nil_iff.mp hrest).2

end RoundTrip

end Prodinamik.Lib.Json
