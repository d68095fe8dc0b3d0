import Prodinamik.Lib.JsonScan

namespace Prodinamik.Lib.Json

/-! Python reads the escape of a surrogate without its pair, too; U+FFFD stands
for it here. -/

/-- A low surrogate is escaped next. -/
def paired : List Char → Bool
  | '\\' :: 'u' :: s =>
    match readHex s with
    | some (n, _) => isLow n
    | none => false
  | _ => false

/-- What is to stand behind a backslash, from an u on. -/
def unicodeEscape (s : List Char) : List Char :=
  match readHex s with
  | none => ['u']
  | some (n, t) =>
      if isHigh n then if paired t then 'u' :: s.take 10 else "ufffd".toList
      else if isLow n then "ufffd".toList
      else ['u']

def escapeTail : List Char → List Char
  | [] => []
  | e :: s => if e = 'u' then unicodeEscape s else [e]

/-- The text with these characters in the place of its first ones. -/
def mendFrom : List Char → List Char → List Char
  | _, [] => []
  | p :: ps, _ :: s => p :: mendFrom ps s
  | [], c :: s => c :: mendFrom (if c = '\\' then escapeTail s else []) s

def mend (s : List Char) : List Char := mendFrom [] s

/-- json.loads of any text. -/
def loadsMended (fl : Floats) (s : List Char) : Option (Value fl.Num) := loads fl (mend s)

theorem length_mendFrom (ps s : List Char) : (mendFrom ps s).length = s.length := by
  induction s generalizing ps with
  | nil => rw [mendFrom]
  | cons c s ih =>
      cases ps with
      | nil => rw [mendFrom, List.length_cons, ih, List.length_cons]
      | cons p ps => rw [mendFrom, List.length_cons, ih, List.length_cons]

/-! What json.dumps writes needs no mending. -/

/-- A text that stays as it is, whatever follows it. -/
def Kept (s : List Char) : Prop := ∀ t, mend (s ++ t) = s ++ mend t

theorem kept_nil : Kept [] := fun _ => rfl

theorem Kept.append {s t : List Char} (hs : Kept s) (ht : Kept t) : Kept (s ++ t) := by
  intro u
  rw [List.append_assoc, hs, ht, List.append_assoc]

theorem kept_of_no_escape {s : List Char} (h : '\\' ∉ s) : Kept s := by
  induction s with
  | nil => exact kept_nil
  | cons c s ih =>
      obtain ⟨hc, hs⟩ := not_or.mp (List.mem_cons.not.mp h)
      intro t
      rw [List.cons_append, mend, mendFrom, if_neg (Ne.symm hc)]
      exact congrArg (c :: ·) (ih hs t)

theorem Kept.cons {c : Char} {s : List Char} (hc : c ≠ '\\') (hs : Kept s) : Kept (c :: s) :=
  (kept_of_no_escape (s := [c]) (by simpa using Ne.symm hc)).append hs

theorem mendFrom_self (ps t : List Char) : mendFrom ps (ps ++ t) = ps ++ mend t := by
  induction ps with
  | nil => rfl
  | cons p ps ih => rw [List.cons_append, mendFrom, ih, List.cons_append]

/-- An escape is kept where its own characters are put in their place, and the
rest of it is kept. -/
theorem kept_escape {ps s : List Char} (h : ∀ t, escapeTail (ps ++ (s ++ t)) = ps) (hs : Kept s) :
    Kept ('\\' :: (ps ++ s)) := by
  intro t
  rw [List.cons_append, mend, mendFrom, if_pos rfl, List.append_assoc, h, mendFrom_self, hs]
  simp

theorem kept_hex4 (n : Nat) : Kept (hex4 n) := by
  have hall : ∀ k < 16, k.digitChar ≠ '\\' := by decide
  have hdigit : ∀ m, '\\' ≠ (m % 16).digitChar := fun m => Ne.symm (hall _ (Nat.mod_lt m (by decide)))
  refine kept_of_no_escape ?_
  simp only [hex4, List.mem_cons, List.not_mem_nil, or_false, not_or]
  exact ⟨hdigit _, hdigit _, hdigit _, hdigit _⟩

theorem kept_simple {e : Char} (h : e ≠ 'u') : Kept ['\\', e] :=
  @kept_escape [e] [] (fun t => by rw [List.singleton_append, escapeTail, if_neg h]) kept_nil

theorem kept_escapeChar (c : Char) : Kept (escapeChar c) := by
  have hvalid := char_valid c
  rw [escapeChar]
  iterate 7
    split
    · exact kept_simple (by decide)
  split
  · rename_i hback _ _ _ _ _ _
    exact kept_of_no_escape (by simpa using Ne.symm hback)
  split
  · rename_i hsmall
    refine @kept_escape ['u'] (hex4 c.toNat) (fun t => ?_) (kept_hex4 _)
    rw [List.singleton_append, escapeTail, if_pos rfl, unicodeEscape, readHex_hex4 hsmall]
    simp [isHigh_toNat, isLow_toNat]
  · rename_i hlarge
    have hhigh := isHigh_pair (Nat.not_lt.mp hlarge)
    have hlow := isLow_pair c
    have hwhole : ∀ hi lo : Nat, '\\' :: 'u' :: (hex4 hi ++ '\\' :: 'u' :: hex4 lo) =
        '\\' :: (('u' :: (hex4 hi ++ '\\' :: 'u' :: hex4 lo)) ++ []) := by simp
    rw [hwhole]
    refine kept_escape (fun t => ?_) kept_nil
    rw [List.cons_append, escapeTail, if_pos rfl, unicodeEscape, List.append_assoc,
      readHex_hex4 (by omega)]
    simp only [List.cons_append]
    have hpaired : ∀ u, paired ('\\' :: 'u' :: (hex4 (0xdc00 + (c.toNat - 0x10000) % 1024) ++ u)) =
        true := by
      intro u
      rw [paired, readHex_hex4 (by omega)]
      exact hlow
    rw [if_pos hhigh, hpaired, if_pos rfl]
    rfl

section

variable {fl : Floats}

theorem kept_quote (s : String) : Kept (quote s) := by
  have hall : ∀ cs : List Char, Kept (cs.flatMap escapeChar) := by
    intro cs
    induction cs with
    | nil => exact kept_nil
    | cons c cs ih => exact (kept_escapeChar c).append ih
  exact .cons (by decide) ((hall _).append (kept_of_no_escape (by decide)))

theorem kept_bare {s : List Char} (h : ∀ c ∈ s, bare c = true) : Kept s :=
  kept_of_no_escape fun hmem => absurd (h _ hmem) (by decide)

theorem kept_number {s : List Char} {r : List Char × List Char} (h : lexNumber s = some (r, [])) :
    Kept s := by
  obtain ⟨i, hi, heq⟩ := Option.map_eq_some_iff.mp h
  have htext := lexNumber_text h
  obtain ⟨rfl, -⟩ := Prod.mk.inj heq
  rw [htext, List.append_nil]
  refine kept_bare fun c hc => ?_
  simp only [List.mem_append] at hc
  rcases hc with hc | hc | hc
  · exact bare_signedPart hi c hc
  · exact bare_fracPart _ c hc
  · exact bare_expPart _ c hc

theorem kept_others {close : Char} (hclose : close ≠ '\\') {texts : List (List Char)}
    (h : ∀ text ∈ texts, Kept text) : Kept (others close texts) := by
  induction texts with
  | nil => exact .cons hclose kept_nil
  | cons text texts ih =>
      obtain ⟨htext, h⟩ := List.forall_mem_cons.mp h
      exact .cons (by decide) (.cons (by decide) (htext.append (ih h)))

theorem kept_listed {close : Char} (hclose : close ≠ '\\') {texts : List (List Char)}
    (h : ∀ text ∈ texts, Kept text) : Kept (listed close texts) := by
  cases texts with
  | nil => exact .cons hclose kept_nil
  | cons text texts =>
      obtain ⟨htext, h⟩ := List.forall_mem_cons.mp h
      exact htext.append (kept_others hclose h)

mutual

theorem kept_dumps : ∀ v : Value fl.Num, Ok fl v → Kept (dumps fl v) := by
  intro v hok
  cases v with
  | null => exact kept_of_no_escape (s := "null".toList) (by decide)
  | bool b =>
      cases b with
      | true => exact kept_of_no_escape (s := "true".toList) (by decide)
      | false => exact kept_of_no_escape (s := "false".toList) (by decide)
  | int n => exact kept_number (lexNumber_intText n)
  | float x =>
      obtain ⟨i, e, hx, -⟩ := (hok : fl.IsFinite x)
      exact kept_number hx
  | str s => exact kept_quote s
  | arr vs => exact .cons (by decide) (kept_listed (by decide) (kept_dumpsAll vs hok))
  | obj ms => exact .cons (by decide) (kept_listed (by decide) (kept_dumpsMembers ms hok.2))

theorem kept_dumpsAll : ∀ vs : List (Value fl.Num), OkAll fl vs → ∀ text ∈ dumpsAll fl vs, Kept text := by
  intro vs hok
  cases vs with
  | nil => exact fun text htext => (List.not_mem_nil htext).elim
  | cons v vs =>
      exact List.forall_mem_cons.mpr ⟨kept_dumps v hok.1, kept_dumpsAll vs hok.2⟩

theorem kept_dumpsMembers : ∀ ms : List (String × Value fl.Num), OkMembers fl ms →
    ∀ text ∈ dumpsMembers fl ms, Kept text := by
  intro ms hok
  cases ms with
  | nil => exact fun text htext => (List.not_mem_nil htext).elim
  | cons m ms =>
      obtain ⟨k, v⟩ := m
      refine List.forall_mem_cons.mpr ⟨?_, kept_dumpsMembers ms hok.2⟩
      exact (kept_quote k).append (.cons (by decide) (.cons (by decide) (kept_dumps v hok.1)))

end

theorem loadsMended_dumps {v : Value fl.Num} (h : Ok fl v) : loadsMended fl (dumps fl v) = some v := by
  have hkept := kept_dumps v h []
  rw [List.append_nil, show mend [] = [] from rfl, List.append_nil] at hkept
  rw [loadsMended, hkept, loads_dumps fl h]

end

end Prodinamik.Lib.Json
