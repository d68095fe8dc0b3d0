import Mathlib.Tactic.FinCases
import Prodinamik.Lib.Outline
import Prodinamik.Lib.Split

namespace Prodinamik.Plugins

open Lib Lib.Text

/-- Python's isdigit and int, of which it matters that they read decimal numbers. -/
structure Digits where
  isdigit : List Char → Bool
  int : List Char → Option Nat
  decimal : ∀ n, isdigit (Nat.toDigits 10 n) = true ∧ int (Nat.toDigits 10 n) = some n

inductive ConfigValue
  | bool (b : Bool)
  | int (n : Nat)
  | text (s : List Char)
  deriving DecidableEq, Repr

/-- A config, with the lines it is read from. -/
abbrev HermesConfig := Outline (List Char) ConfigValue

abbrev ConfigLine := Outline.Line (List Char) ConfigValue

namespace HermesPluginBridge

/-- Remove quotes -/
def unquote (value : List Char) : List Char :=
  if value.head? = some '"' ∧ value.getLast? = some '"' then value.tail.dropLast
  else if value.head? = some '\'' ∧ value.getLast? = some '\'' then value.tail.dropLast
  else value

/-- Parse booleans and numbers; none is the ValueError of int. -/
def readText (d : Digits) (value : List Char) : Option ConfigValue :=
  if value.map Char.toLower = "true".toList then some (.bool true)
  else if value.map Char.toLower = "false".toList then some (.bool false)
  else if d.isdigit value then (d.int value).map .int
  else some (.text value)

def readLine (d : Digits) (line : List Char) : Option (List ConfigLine) :=
  let stripped := line.rdropWhile isSpace
  if stripped = [] ∨ stripped.head? = some '#' then some []
  else
    let indent := (line.takeWhile isSpace).length
    let content := strip stripped
    if content.getLast? = some ':' then some [⟨indent / 2, strip content.dropLast, none⟩]
    else if ':' ∈ content then
      let (key, value) := partition ':' content
      (readText d (unquote (strip value))).map fun v => [⟨indent / 2, strip key, some v⟩]
    else some []

/-- Simple nested YAML parser for config -/
def parseSimpleYaml (d : Digits) (file : List Char) : Option HermesConfig :=
  (((universalNewlines file).splitOn '\n').mapM (readLine d)).map fun lines =>
    (lines.flatten.foldl Outline.Reading.read {}).result

/-- The plugin section of a config file that may be missing, and how many errors are counted. -/
def readHermesPluginConfig (d : Digits) (file : Option (List Char)) :
    (ConfigValue ⊕ HermesConfig) × Nat :=
  match file with
  | none => (.inr .nil, 0)
  | some file =>
    match parseSimpleYaml d file with
    | none => (.inr .nil, 1)
    | some config => ((config.get "plugins".toList).getD (.inr .nil), 0)

end HermesPluginBridge

namespace ConfigValue

/-- How a value is written: a text in quotes. -/
def render : ConfigValue → List Char
  | bool true => "true".toList
  | bool false => "false".toList
  | int n => Nat.toDigits 10 n
  | text s => '"' :: s ++ ['"']

end ConfigValue

namespace HermesConfig

def renderLine (line : ConfigLine) : List Char :=
  List.replicate (2 * line.depth) ' ' ++ line.key ++ ':' :: match line.value with
    | none => []
    | some value => ' ' :: value.render

/-- A config with two blanks for each level. -/
def render (config : HermesConfig) : List Char :=
  ((config.lines 0).map fun line => renderLine line ++ ['\n']).flatten

end HermesConfig

/-- A line of which key and value stand on it and are told apart. -/
structure Writable (line : ConfigLine) : Prop where
  stripped : strip line.key = line.key
  oneLine : '\n' ∉ line.key ∧ '\r' ∉ line.key
  noColon : line.value ≠ none → ':' ∉ line.key
  noComment : line.depth = 0 → line.key.head? ≠ some '#'
  textLine : ∀ s, line.value = some (.text s) → '\n' ∉ s ∧ '\r' ∉ s

/-- A text that is neither a boolean nor a number. -/
def Plain (d : Digits) (s : List Char) : Prop :=
  s.map Char.toLower ≠ "true".toList ∧ s.map Char.toLower ≠ "false".toList ∧ d.isdigit s = false

namespace HermesPluginBridge

variable (d : Digits)

/-- What a written value is read as. -/
def reread (value : ConfigValue) : Option ConfigValue := readText d (unquote value.render)

theorem readText_eq_text_iff {s : List Char} : readText d s = some (.text s) ↔ Plain d s := by
  rw [readText, Plain]
  constructor
  · intro h
    split at h
    · cases h
    split at h
    · cases h
    split at h
    · obtain ⟨n, -, hn⟩ := Option.map_eq_some_iff.mp h
      cases hn
    · rename_i htrue hfalse hdigit
      exact ⟨htrue, hfalse, eq_false_of_ne_true hdigit⟩
  · rintro ⟨htrue, hfalse, hdigit⟩
    rw [if_neg htrue, if_neg hfalse, hdigit]
    rfl

theorem unquote_of_head {value : List Char} (h : '"' ∉ value.head?) (h' : '\'' ∉ value.head?) :
    unquote value = value := by
  rw [unquote, if_neg fun hq => h hq.1, if_neg fun hq => h' hq.1]

theorem unquote_quoted (s : List Char) : unquote ('"' :: s ++ ['"']) = s := by
  rw [unquote, if_pos ⟨rfl, List.getLast?_concat⟩]
  exact List.dropLast_concat

theorem map_toLower_toDigits (n : Nat) (word : List Char) (h : ∀ k < 10, k.digitChar.toLower ∉ word) :
    (Nat.toDigits 10 n).map Char.toLower ≠ word := by
  rintro rfl
  obtain ⟨c, rest, hdigits⟩ := List.exists_cons_of_ne_nil (Nat.toDigits_ne_nil (n := n) (b := 10))
  obtain ⟨k, hk, hc⟩ := mem_toDigits (n := n) (c := c) (by rw [hdigits]; exact List.mem_cons_self)
  refine h k hk (List.mem_map.mpr ⟨c, ?_, by rw [hc]⟩)
  rw [hdigits]
  exact List.mem_cons_self

theorem reread_bool (b : Bool) : reread d (.bool b) = some (.bool b) := by
  cases b with
  | true => rw [reread, unquote_of_head (by decide) (by decide), readText, if_pos (by decide)]
  | false =>
      rw [reread, unquote_of_head (by decide) (by decide), readText, if_neg (by decide),
        if_pos (by decide)]

theorem reread_int (n : Nat) : reread d (.int n) = some (.int n) := by
  have hhead : ∀ c, (∀ k < 10, k.digitChar ≠ c) → c ∉ (Nat.toDigits 10 n).head? := by
    intro c hc hmem
    obtain ⟨k, hk, heq⟩ := mem_toDigits (List.mem_of_mem_head? hmem)
    exact hc k hk heq.symm
  obtain ⟨hdigit, hint⟩ := d.decimal n
  rw [reread, ConfigValue.render, unquote_of_head (hhead _ (by decide)) (hhead _ (by decide)),
    readText, if_neg (map_toLower_toDigits n _ (by decide)),
    if_neg (map_toLower_toDigits n _ (by decide)), if_pos hdigit, hint]
  rfl

theorem reread_text (s : List Char) : reread d (.text s) = readText d s := by
  rw [reread, ConfigValue.render, unquote_quoted]

end HermesPluginBridge

namespace ConfigValue

/-- A written value begins and ends with a character that is neither a blank nor a colon. -/
theorem render_ends (value : ConfigValue) : strip value.render = value.render ∧
    ∃ init last, value.render = init ++ [last] ∧ isSpace last = false ∧ last ≠ ':' := by
  cases value with
  | bool b =>
      cases b with
      | true => exact ⟨by decide, "tru".toList, 'e', by decide, by decide, by decide⟩
      | false => exact ⟨by decide, "fals".toList, 'e', by decide, by decide, by decide⟩
  | int n =>
      have hdigit : ∀ c ∈ Nat.toDigits 10 n, isSpace c = false ∧ c ≠ ':' := by
        intro c hc
        obtain ⟨k, hk, rfl⟩ := mem_toDigits hc
        have hcolon : ∀ k < 10, k.digitChar ≠ ':' := by decide
        exact ⟨digitChar_not_space hk, hcolon k hk⟩
      refine ⟨strip_of_no_space fun c hc => (hdigit c hc).1, ?_⟩
      have hlast := List.dropLast_append_getLast (Nat.toDigits_ne_nil (n := n) (b := 10))
      exact ⟨_, _, hlast.symm, hdigit _ (List.getLast_mem _)⟩
  | text s =>
      refine ⟨?_, '"' :: s, '"', rfl, by decide, by decide⟩
      rw [render, strip, List.rdropWhile_concat_neg _ _ _ (by decide), List.cons_append,
        List.dropWhile_cons_of_neg (by decide)]

end ConfigValue

namespace HermesPluginBridge

variable (d : Digits)

/-- Blanks, a key and a colon: what of a line the parser looks at. -/
theorem shape {pad key tail : List Char} (hpad : ∀ c ∈ pad, isSpace c) (hkey : strip key = key)
    (htail : (':' :: tail).rdropWhile isSpace = ':' :: tail) :
    (pad ++ key ++ ':' :: tail).rdropWhile isSpace = pad ++ key ++ ':' :: tail ∧
      strip (pad ++ key ++ ':' :: tail) = key ++ ':' :: tail ∧
      ((pad ++ key ++ ':' :: tail).takeWhile isSpace).length = pad.length := by
  have hcolon : isSpace ':' = false := by decide
  have hfront : (key ++ ':' :: tail).dropWhile isSpace = key ++ ':' :: tail := by
    rw [dropWhile_append_cons hcolon, ← hkey, dropWhile_strip]
  have hback : (key ++ ':' :: tail).rdropWhile isSpace = key ++ ':' :: tail := by
    rw [rdropWhile_append key ⟨':', List.mem_cons_self, hcolon⟩, htail]
  refine ⟨?_, ?_, ?_⟩
  · rw [rdropWhile_append _ ⟨':', List.mem_cons_self, hcolon⟩, htail]
  · rw [List.append_assoc, strip_blank_left hpad, strip, hback, hfront]
  · have htake : (key ++ ':' :: tail).takeWhile isSpace = [] := by
      have hsplit := List.takeWhile_append_dropWhile (p := isSpace) (l := key ++ ':' :: tail)
      rw [hfront] at hsplit
      exact List.append_left_eq_self.mp hsplit
    rw [List.append_assoc, List.takeWhile_append_of_pos hpad, htake, List.append_nil]

/-- A written line is read as its own key, with its value read again. -/
theorem readLine_renderLine {line : ConfigLine} (h : Writable line) :
    readLine d (HermesConfig.renderLine line) =
      (line.traverse (reread d)).map fun l => [l] := by
  obtain ⟨depth, key, value⟩ := line
  obtain ⟨hkey, -, hcolon, hcomment, -⟩ := h
  have hpad : ∀ c ∈ List.replicate (2 * depth) ' ', isSpace c := by
    intro c hc
    rw [List.eq_of_mem_replicate hc]
    decide
  have hread : ∀ tail, (':' :: tail).rdropWhile isSpace = ':' :: tail →
      readLine d (List.replicate (2 * depth) ' ' ++ key ++ ':' :: tail) =
        if (key ++ ':' :: tail).getLast? = some ':' then
          some [⟨depth, strip (key ++ ':' :: tail).dropLast, none⟩]
        else (readText d (unquote (strip (partition ':' (key ++ ':' :: tail)).2))).map fun v =>
          [⟨depth, strip (partition ':' (key ++ ':' :: tail)).1, some v⟩] := by
    intro tail htail
    obtain ⟨hstripped, hcontent, hindent⟩ := shape hpad hkey htail
    have hkept : ¬ (List.replicate (2 * depth) ' ' ++ key ++ ':' :: tail = [] ∨
        (List.replicate (2 * depth) ' ' ++ key ++ ':' :: tail).head? = some '#') := by
      rintro (hnil | hhash)
      · exact absurd hnil (by simp)
      · cases depth with
        | zero =>
            cases key with
            | nil => cases hhash
            | cons c key => exact hcomment rfl hhash
        | succ depth =>
            rw [Nat.mul_succ, List.replicate_succ] at hhash
            cases hhash
    rw [readLine, hstripped]
    dsimp only
    rw [if_neg hkept, hcontent, hindent, List.length_replicate, Nat.mul_div_cancel_left _ Nat.two_pos,
      if_pos (List.mem_append_right _ List.mem_cons_self)]
  cases value with
  | none =>
      rw [HermesConfig.renderLine, hread [] (List.rdropWhile_singleton _ _ ▸ by decide),
        if_pos List.getLast?_concat, List.dropLast_concat, hkey]
      rfl
  | some v =>
      obtain ⟨htrim, init, last, hrender, hspace, hlast⟩ := v.render_ends
      have htail : ':' :: ' ' :: v.render = (':' :: ' ' :: init) ++ [last] := by
        rw [hrender]
        rfl
      have hback : (':' :: ' ' :: v.render).rdropWhile isSpace = ':' :: ' ' :: v.render := by
        rw [htail, List.rdropWhile_concat_neg _ _ _ (by simp [hspace])]
      have hend : (key ++ ':' :: ' ' :: v.render).getLast? ≠ some ':' := by
        rw [htail, ← List.append_assoc, List.getLast?_concat]
        exact fun heq => hlast (Option.some.inj heq)
      rw [HermesConfig.renderLine, hread _ hback, if_neg hend,
        partition_append (hcolon (Option.some_ne_none v)), strip_cons_space (by decide), htrim, hkey,
        Outline.Line.traverse, Option.map_map]
      rfl

theorem renderLine_oneLine {line : ConfigLine} (h : Writable line) :
    '\n' ∉ HermesConfig.renderLine line ∧ '\r' ∉ HermesConfig.renderLine line := by
  have hvalue : ∀ v, line.value = some v → '\n' ∉ v.render ∧ '\r' ∉ v.render := by
    intro v hv
    cases v with
    | bool b => cases b <;> decide
    | int n =>
        have hdigit : ∀ c, (∀ k < 10, k.digitChar ≠ c) → c ∉ Nat.toDigits 10 n := by
          intro c hc hmem
          obtain ⟨k, hk, heq⟩ := mem_toDigits hmem
          exact hc k hk heq.symm
        exact ⟨hdigit _ (by decide), hdigit _ (by decide)⟩
    | text s =>
        obtain ⟨hn, hr⟩ := h.textLine s hv
        simp [ConfigValue.render, hn, hr]
  obtain ⟨hn, hr⟩ := h.oneLine
  rw [HermesConfig.renderLine]
  cases hv : line.value with
  | none => simp [hn, hr]
  | some v => simp [hn, hr, hvalue v hv]

theorem mapM_readLine {lines : List ConfigLine} (h : ∀ line ∈ lines, Writable line) :
    ((universalNewlines ((lines.map fun line =>
      HermesConfig.renderLine line ++ ['\n']).flatten)).splitOn '\n').mapM (readLine d) =
      (lines.mapM (Outline.Line.traverse (reread d))).map fun ls =>
        ls.map (fun l => [l]) ++ [[]] := by
  induction lines with
  | nil => rfl
  | cons line lines ih =>
      obtain ⟨hline, hlines⟩ := List.forall_mem_cons.mp h
      obtain ⟨hn, hr⟩ := renderLine_oneLine hline
      rw [List.map_cons, List.flatten_cons, List.append_assoc, universalNewlines_append hr,
        List.singleton_append, universalNewlines_cons (by decide),
        List.splitOn_append_cons_self_of_not_mem hn, List.mapM_cons, ih hlines,
        readLine_renderLine d hline, List.mapM_cons]
      cases line.traverse (reread d) with
      | none => rfl
      | some l => cases lines.mapM (Outline.Line.traverse (reread d)) <;> rfl

/-- What a written config is read as: the same config with each value read again. -/
theorem parseSimpleYaml_eq {config : HermesConfig} (hkeyed : config.Keyed)
    (hlines : ∀ line ∈ config.lines 0, Writable line) :
    parseSimpleYaml d config.render = config.traverse (reread d) := by
  rw [parseSimpleYaml, HermesConfig.render, mapM_readLine d hlines, Option.map_map]
  rw [Outline.mapM_lines (reread d) config 0, Option.map_map]
  cases htraverse : config.traverse (reread d) with
  | none => rfl
  | some config' =>
      have hflatten : ∀ ls : List ConfigLine, (ls.map (fun l => [l]) ++ [[]]).flatten = ls := by
        intro ls
        rw [List.flatten_concat, List.append_nil, ← List.flatMap_def, List.flatMap_singleton']
      rw [Option.map_some, Function.comp_apply, Function.comp_apply, hflatten,
        Outline.read_lines_eq (hkeyed.traverse htraverse)]

/-- Digits as far as ASCII goes. -/
def asciiDigits : Digits where
  isdigit s := !s.isEmpty && s.all Char.isDigit
  int s := some (Nat.ofDigitChars 10 s 0)
  decimal n := by
    refine ⟨?_, by rw [Nat.ofDigitChars_ten_toDigits]⟩
    rw [Bool.and_eq_true, List.all_eq_true, Bool.not_eq_true', List.isEmpty_eq_false_iff]
    refine ⟨Nat.toDigits_ne_nil, fun c hc => ?_⟩
    obtain ⟨k, hk, rfl⟩ := mem_toDigits hc
    have hall : ∀ k < 10, k.digitChar.isDigit := by decide
    exact hall k hk

def loggingConfig : HermesConfig :=
  .node "plugins".toList (.node "prodinamik.logging".toList
    (.leaf "enabled".toList (.bool true) (.leaf "level".toList (.text "debug".toList) .nil)) .nil) .nil

end HermesPluginBridge

end Prodinamik.Plugins
