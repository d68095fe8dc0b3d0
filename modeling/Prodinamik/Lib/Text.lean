import Mathlib.Data.List.DropRight

namespace Prodinamik.Lib.Text

/-- The characters that Python's str.strip takes off. -/
def isSpace (c : Char) : Bool :=
  (9 ≤ c.toNat ∧ c.toNat ≤ 13) ∨ (28 ≤ c.toNat ∧ c.toNat ≤ 32) ∨ c.toNat = 0x85 ∨ c.toNat = 0xa0 ∨
    c.toNat = 0x1680 ∨ (0x2000 ≤ c.toNat ∧ c.toNat ≤ 0x200a) ∨ c.toNat = 0x2028 ∨
    c.toNat = 0x2029 ∨ c.toNat = 0x202f ∨ c.toNat = 0x205f ∨ c.toNat = 0x3000

def strip (s : List Char) : List Char := (s.rdropWhile isSpace).dropWhile isSpace

/-- What reading a text file makes of its line ends. -/
def universalNewlines : List Char → List Char
  | '\r' :: '\n' :: rest => '\n' :: universalNewlines rest
  | '\r' :: rest => '\n' :: universalNewlines rest
  | c :: rest => c :: universalNewlines rest
  | [] => []

def partition (sep : Char) (s : List Char) : List Char × List Char :=
  (s.takeWhile (· ≠ sep), (s.dropWhile (· ≠ sep)).tail)

def contains (needle s : List Char) : Bool := s.tails.any needle.isPrefixOf

/-- Python's s.split(sep) for a non-empty sep: the characters since the last
separator in reverse, and how many characters of a separator are still to be
passed over. -/
def splitFrom (sep : List Char) : List Char → Nat → List Char → List (List Char)
  | acc, _, [] => [acc.reverse]
  | acc, skip + 1, _ :: rest => splitFrom sep acc skip rest
  | acc, 0, c :: rest =>
      if sep.isPrefixOf (c :: rest) then acc.reverse :: splitFrom sep [] (sep.length - 1) rest
      else splitFrom sep (c :: acc) 0 rest

def split (sep s : List Char) : List (List Char) := splitFrom sep [] 0 s

/-- The two parts of s.split(sep, 1) where sep is in s. -/
def splitOnce (sep s : List Char) : List Char × List Char :=
  match split sep s with
  | [] => ([], [])
  | first :: _ => (first, s.drop (first.length + sep.length))

def digit (c : Char) : Option Nat :=
  if '0' ≤ c ∧ c ≤ '9' then some (c.toNat - '0'.toNat) else none

/-- The digits of an int, which single underscores may separate. The flag
tells whether a digit came last. -/
def parseDigits : Nat → Bool → List Char → Option Nat
  | acc, afterDigit, [] => if afterDigit then some acc else none
  | acc, afterDigit, c :: rest =>
      if c = '_' then if afterDigit then parseDigits acc false rest else none
      else match digit c with
        | some d => parseDigits (10 * acc + d) true rest
        | none => none

/-- Python's int of a string of ASCII digits; none is the ValueError. -/
def parseInt (s : List Char) : Option Int :=
  match strip s with
  | '-' :: rest => (parseDigits 0 false rest).map fun n => -(n : Int)
  | '+' :: rest => (parseDigits 0 false rest).map fun n => (n : Int)
  | rest => (parseDigits 0 false rest).map fun n => (n : Int)

theorem rdropWhile_append_cons {p : Char → Bool} {c : Char} (h : p c = false) (xs ys : List Char) :
    (xs ++ c :: ys).rdropWhile p = xs ++ c :: ys.rdropWhile p := by
  induction ys using List.reverseRecOn with
  | nil => rw [List.rdropWhile_concat_neg _ _ _ (by simp [h]), List.rdropWhile_nil]
  | append_singleton ys y ih =>
      rw [← List.cons_append, ← List.append_assoc]
      cases hy : p y with
      | true => rw [List.rdropWhile_concat_pos _ _ _ hy, ih, List.rdropWhile_concat_pos _ _ _ hy]
      | false =>
          rw [List.rdropWhile_concat_neg _ _ _ (by simp [hy]),
            List.rdropWhile_concat_neg _ _ _ (by simp [hy])]
          simp

theorem strip_rdropWhile (s : List Char) : strip (s.rdropWhile isSpace) = strip s := by
  rw [strip, strip, List.rdropWhile_idempotent]

theorem strip_cons_space {c : Char} (h : isSpace c = true) (s : List Char) :
    strip (c :: s) = strip s := by
  by_cases hall : ∀ x ∈ s, isSpace x = true
  · rw [strip, strip, List.rdropWhile_eq_nil_iff.mpr hall, List.rdropWhile_eq_nil_iff.mpr]
    exact List.forall_mem_cons.mpr ⟨h, hall⟩
  · push Not at hall
    obtain ⟨x, hx, hspace⟩ := hall
    obtain ⟨xs, ys, rfl⟩ := List.append_of_mem hx
    have hfalse : isSpace x = false := by simpa using hspace
    rw [strip, strip, ← List.cons_append, rdropWhile_append_cons hfalse,
      rdropWhile_append_cons hfalse, List.cons_append, List.dropWhile_cons_of_pos h]

theorem universalNewlines_cons {c : Char} (h : c ≠ '\r') (s : List Char) :
    universalNewlines (c :: s) = c :: universalNewlines s := by
  rw [universalNewlines]
  · rintro rest rfl
    exact absurd rfl h
  · rintro rfl
    exact absurd rfl h

theorem universalNewlines_append {s : List Char} (h : '\r' ∉ s) (t : List Char) :
    universalNewlines (s ++ t) = s ++ universalNewlines t := by
  induction s with
  | nil => rfl
  | cons c s ih =>
      rw [List.mem_cons, not_or] at h
      rw [List.cons_append, universalNewlines_cons (Ne.symm h.1), ih h.2, List.cons_append]

/-- Whatever comes before a line end, the rest is read by itself. -/
theorem universalNewlines_line (s : List Char) :
    ∃ s', ∀ t, universalNewlines (s ++ '\n' :: t) = s' ++ '\n' :: universalNewlines t := by
  induction s using universalNewlines.induct with
  | case1 rest ih =>
      obtain ⟨s', hs⟩ := ih
      refine ⟨'\n' :: s', fun t => ?_⟩
      rw [List.cons_append, List.cons_append, universalNewlines, hs]
      rfl
  | case2 rest hne ih =>
      obtain ⟨s', hs⟩ := ih
      cases rest with
      | nil => exact ⟨[], fun _ => rfl⟩
      | cons c rest =>
          refine ⟨'\n' :: s', fun t => ?_⟩
          rw [List.cons_append, List.cons_append, universalNewlines, ← List.cons_append, hs]
          · rfl
          · intro rest' heq
            cases heq
            exact hne rest rfl
  | case3 c rest hne hne' ih =>
      obtain ⟨s', hs⟩ := ih
      have hc : c ≠ '\r' := hne'
      refine ⟨c :: s', fun t => ?_⟩
      rw [List.cons_append, universalNewlines_cons hc, hs]
      rfl
  | case4 => exact ⟨[], fun _ => rfl⟩

/-- No carriage return is left. -/
theorem not_mem_universalNewlines (s : List Char) : '\r' ∉ universalNewlines s := by
  induction s using universalNewlines.induct with
  | case1 rest ih =>
      rw [universalNewlines, List.mem_cons, not_or]
      exact ⟨by decide, ih⟩
  | case2 rest hne ih =>
      rw [universalNewlines, List.mem_cons, not_or]
      · exact ⟨by decide, ih⟩
      · exact hne
  | case3 c rest hne hne' ih =>
      rw [universalNewlines_cons hne', List.mem_cons, not_or]
      exact ⟨Ne.symm hne', ih⟩
  | case4 => exact List.not_mem_nil

theorem mem_of_mem_strip {s : List Char} {c : Char} (h : c ∈ strip s) : c ∈ s :=
  (List.rdropWhile_prefix isSpace s).subset ((List.dropWhile_suffix isSpace).subset h)

theorem strip_strip (s : List Char) : strip (strip s) = strip s := by
  have hkept : (strip s).rdropWhile isSpace = strip s := by
    rw [List.rdropWhile_eq_self_iff]
    intro hne
    have hsuffix : strip s <:+ s.rdropWhile isSpace := List.dropWhile_suffix isSpace
    rw [hsuffix.getLast hne]
    exact List.rdropWhile_last_not _ _ _
  rw [strip, hkept]
  exact List.dropWhile_idempotent isSpace _

/-- A part between two separators has none of them. -/
theorem mem_splitOn {sep : Char} {s l : List Char} (h : l ∈ s.splitOn sep) :
    sep ∉ l ∧ ∀ c ∈ l, c ∈ s := by
  induction s generalizing l with
  | nil =>
      rw [List.splitOn_nil, List.mem_singleton] at h
      rw [h]
      exact ⟨List.not_mem_nil, fun _ hc => hc⟩
  | cons c s ih =>
      have htail : ∀ {l}, l ∈ s.splitOn sep → sep ∉ l ∧ ∀ x ∈ l, x ∈ c :: s := fun hl =>
        ⟨(ih hl).1, fun x hx => List.mem_cons_of_mem c ((ih hl).2 x hx)⟩
      rw [List.splitOn_cons_eq_if_modifyHead] at h
      by_cases hc : c = sep
      · rw [if_pos (beq_iff_eq.mpr hc)] at h
        obtain rfl | h := List.mem_cons.mp h
        · exact ⟨List.not_mem_nil, fun _ hx => absurd hx List.not_mem_nil⟩
        · exact htail h
      · rw [if_neg fun heq => hc (beq_iff_eq.mp heq)] at h
        obtain ⟨first, rest, hparts⟩ := List.exists_cons_of_ne_nil (List.splitOn_ne_nil sep s)
        rw [hparts] at h htail
        obtain rfl | h := List.mem_cons.mp h
        · obtain ⟨hfirst, hsub⟩ := htail List.mem_cons_self
          refine ⟨?_, List.forall_mem_cons.mpr ⟨List.mem_cons_self, hsub⟩⟩
          rw [List.mem_cons, not_or]
          exact ⟨fun heq => hc heq.symm, hfirst⟩
        · exact htail (List.mem_cons_of_mem _ h)

theorem mem_of_mem_partition {sep c : Char} {s : List Char} (h : c ∈ (partition sep s).2) : c ∈ s :=
  (List.dropWhile_suffix _).subset (List.mem_of_mem_tail h)

theorem partition_append {sep : Char} {s : List Char} (h : sep ∉ s) (t : List Char) :
    partition sep (s ++ sep :: t) = (s, t) := by
  have hne : ∀ c ∈ s, decide (c ≠ sep) = true := by
    intro c hc
    rw [decide_eq_true_eq]
    rintro rfl
    exact h hc
  rw [partition, List.takeWhile_append_of_pos hne, List.dropWhile_append_of_pos hne]
  simp

theorem digit_digitChar {n : Nat} (h : n < 10) : digit n.digitChar = some n := by
  have hall : ∀ k < 10, digit k.digitChar = some k := by decide
  exact hall n h

theorem parseDigits_append {n : Nat} (hn : n < 10) (s : List Char) {acc r : Nat} {flag : Bool}
    (h : parseDigits acc flag s = some r) :
    parseDigits acc flag (s ++ [n.digitChar]) = some (10 * r + n) := by
  have hne : ∀ k < 10, k.digitChar ≠ '_' := by decide
  induction s generalizing acc flag with
  | nil =>
      rw [parseDigits] at h
      cases flag with
      | false => cases h
      | true =>
          cases h
          rw [List.nil_append, parseDigits, if_neg (hne n hn), digit_digitChar hn]
          rfl
  | cons c s ih =>
      rw [parseDigits] at h
      rw [List.cons_append, parseDigits]
      by_cases hc : c = '_'
      · rw [if_pos hc] at h ⊢
        cases flag with
        | false => cases h
        | true => exact ih h
      · rw [if_neg hc] at h ⊢
        cases hd : digit c with
        | none => rw [hd] at h; cases h
        | some d =>
            rw [hd] at h
            exact ih h

theorem parseDigits_toDigits (n : Nat) : parseDigits 0 false (Nat.toDigits 10 n) = some n := by
  induction n using Nat.strong_induction_on with
  | h n ih =>
      by_cases hn : n < 10
      · have hne : ∀ k < 10, k.digitChar ≠ '_' := by decide
        rw [Nat.toDigits_of_lt_base hn, parseDigits, if_neg (hne n hn), digit_digitChar hn]
        simp [parseDigits]
      · rw [Nat.toDigits_of_base_le (by omega) (by omega),
          parseDigits_append (by omega) _ (ih (n / 10) (by omega))]
        congr 1
        omega

theorem digitChar_not_space {n : Nat} (h : n < 10) : isSpace n.digitChar = false := by
  have hall : ∀ k < 10, isSpace k.digitChar = false := by decide
  exact hall n h

theorem mem_toDigits {n : Nat} {c : Char} (h : c ∈ Nat.toDigits 10 n) :
    ∃ k < 10, c = k.digitChar := by
  induction n using Nat.strong_induction_on with
  | h n ih =>
      by_cases hn : n < 10
      · rw [Nat.toDigits_of_lt_base hn, List.mem_singleton] at h
        exact ⟨n, hn, h⟩
      · rw [Nat.toDigits_of_base_le (by omega) (by omega), List.mem_append, List.mem_singleton] at h
        obtain hrest | rfl := h
        · exact ih (n / 10) (by omega) hrest
        · exact ⟨n % 10, by omega, rfl⟩

theorem strip_of_no_space {s : List Char} (h : ∀ c ∈ s, isSpace c = false) : strip s = s := by
  have hr : s.rdropWhile isSpace = s := by
    rw [List.rdropWhile_eq_self_iff]
    intro hne
    rw [h _ (List.getLast_mem hne)]
    exact Bool.false_ne_true
  rw [strip, hr]
  cases s with
  | nil => rfl
  | cons c s => rw [List.dropWhile_cons_of_neg (by simp [h c List.mem_cons_self])]

/-- int reads back what str writes. -/
theorem parseInt_toDigits (n : Nat) : parseInt (Nat.toDigits 10 n) = some (n : Int) := by
  have hstrip : strip (Nat.toDigits 10 n) = Nat.toDigits 10 n := by
    apply strip_of_no_space
    intro c hc
    obtain ⟨k, hk, rfl⟩ := mem_toDigits hc
    exact digitChar_not_space hk
  have hsign : ∀ k < 10, k.digitChar ≠ '-' ∧ k.digitChar ≠ '+' := by decide
  rw [parseInt, hstrip]
  split
  · rename_i rest heq
    obtain ⟨k, hk, hc⟩ := mem_toDigits (n := n) (c := '-') (by rw [heq]; exact List.mem_cons_self)
    exact absurd hc.symm (hsign k hk).1
  · rename_i rest heq
    obtain ⟨k, hk, hc⟩ := mem_toDigits (n := n) (c := '+') (by rw [heq]; exact List.mem_cons_self)
    exact absurd hc.symm (hsign k hk).2
  · rw [parseDigits_toDigits]
    rfl

end Prodinamik.Lib.Text
