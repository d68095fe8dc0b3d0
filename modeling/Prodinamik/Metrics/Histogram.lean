import Mathlib.Algebra.Ring.Int.Defs
import Mathlib.Data.List.Count
import Mathlib.Data.List.Induction
import Mathlib.Data.List.Sort
import Mathlib.Data.String.Basic
import Mathlib.Logic.Function.Basic
import Mathlib.Order.Basic

namespace Prodinamik.Metrics

/-- The numbers that are observed with what Python writes for them, which has no quote; a count is
raised in steps of 1.0. -/
structure Texts (ν : Type) where
  number : ν → List Char
  float : Nat → List Char
  lower : List Char → List Char
  noQuote : ∀ x, '"' ∉ number x

structure Histogram (ν : Type) [Zero ν] where
  name : List Char
  labels : List (List Char × List Char) := []
  buckets : List ν
  counts : Nat → Option Nat := fun _ => none
  sum : ν := 0
  count : Nat := 0

structure Sample where
  name : List Char
  labels : List Char
  value : List Char
  deriving DecidableEq

def Sample.line (s : Sample) : List Char := s.name ++ s.labels ++ ' ' :: s.value ++ ['\n']

/-- Python's replace with a count of one. -/
def replaceFirst (c : Char) (new : List Char) : List Char → List Char
  | [] => []
  | x :: rest => if x = c then new ++ rest else x :: replaceFirst c new rest

def part (label : List Char × List Char) : List Char := label.1 ++ '=' :: '"' :: label.2 ++ ['"']

def quoted (text : List Char) : List Char := '"' :: text ++ ['"']

theorem count_intercalate (parts : List (List Char)) :
    ([','].intercalate parts).count '"' = parts.flatten.count '"' := by
  induction parts with
  | nil => rfl
  | cons p rest ih =>
      cases rest with
      | nil => simp
      | cons q rest =>
          rw [List.intercalate_cons_cons, List.flatten_cons, List.count_append, List.count_append,
            List.count_append, ih]
          rfl

theorem count_replaceFirst {c : Char} {text : List Char} (new : List Char) (hmem : c ∈ text) :
    (replaceFirst c new text).count c + 1 = text.count c + new.count c := by
  induction text with
  | nil => cases hmem
  | cons x rest ih =>
      rw [replaceFirst]
      by_cases hx : x = c
      · subst hx
        rw [if_pos rfl, List.count_append, List.count_cons_self]
        omega
      · have hrest : c ∈ rest := (List.mem_cons.mp hmem).resolve_left (Ne.symm hx)
        have htail := ih hrest
        rw [if_neg hx, List.count_cons_of_ne hx, List.count_cons_of_ne hx]
        exact htail

theorem replaceFirst_of_notMem {c : Char} {new text : List Char} (hmem : c ∉ text) :
    replaceFirst c new text = text := by
  induction text with
  | nil => rfl
  | cons x rest ih =>
      obtain ⟨hx, hrest⟩ := not_or.mp (List.mem_cons.not.mp hmem)
      rw [replaceFirst, if_neg (Ne.symm hx), ih hrest]

/-- A count of some values is that of more just where there are no more. -/
theorem countP_eq_countP_iff {α : Type} {p q : α → Bool} (h : ∀ a, p a → q a) (as : List α) :
    as.countP p = as.countP q ↔ ∀ a ∈ as, q a → p a := by
  induction as with
  | nil => exact iff_of_true rfl (List.forall_mem_nil _)
  | cons a rest ih =>
      have hle := List.countP_mono_left (l := rest) fun b _ => h b
      rw [List.forall_mem_cons, ← ih, List.countP_cons, List.countP_cons]
      cases hp : p a with
      | true =>
          rw [h a hp]
          simp
      | false =>
          cases hq : q a with
          | true =>
              simp only [if_true, Bool.false_eq_true, if_false]
              exact iff_of_false (by omega) fun hand => by simpa using hand.1
          | false => simp

namespace Histogram

variable {ν : Type} [Zero ν] (texts : Texts ν)

/-- The first bucket that is large enough counts the value. -/
def observe [LinearOrder ν] [Add ν] (h : Histogram ν) (value : ν) : Histogram ν :=
  { h with
    sum := h.sum + value
    count := h.count + 1
    counts :=
      match h.buckets.findIdx? fun bound => value ≤ bound with
      | some i => Function.update h.counts i (some ((h.counts i).getD 0 + 1))
      | none => h.counts }

def sanitize (s : List Char) : List Char :=
  texts.lower (s.map fun c => if c = '-' ∨ c = ' ' ∨ c = '.' then '_' else c)

/-- The labels within braces, and the place of an extra one. -/
def labelsStr (h : Histogram ν) (extra : List Char) : List Char :=
  let parts := (h.labels.insertionSort fun l l' => l.1 ≤ l'.1).map part ++
    if extra = [] then [] else [extra ++ ['=', '?']]
  if parts = [] then [] else '{' :: [','].intercalate parts ++ ['}']

/-- The place of the extra label is to be taken by a text, which goes where the first quote is. -/
def leLabels (h : Histogram ν) (text : List Char) : List Char :=
  let labelsLe := h.labelsStr ['l', 'e']
  if labelsLe = [] then '{' :: "le=".toList ++ quoted text ++ ['}']
  else replaceFirst '"' (quoted text) labelsLe

def samples (h : Histogram ν) : List Sample :=
  let name := sanitize texts h.name
  h.buckets.mapIdx (fun i bound =>
    ⟨name ++ "_bucket".toList, h.leLabels (texts.number bound),
      ((h.counts i).map texts.float).getD ['0']⟩) ++
  [⟨name ++ "_bucket".toList, h.leLabels "+Inf".toList, (toString h.count).toList⟩,
    ⟨name ++ "_count".toList, h.labelsStr [], (toString h.count).toList⟩,
    ⟨name ++ "_sum".toList, h.labelsStr [], texts.number h.sum⟩]

def prometheus (h : Histogram ν) : List Char := (h.samples texts).flatMap Sample.line

def observeAll [LinearOrder ν] [Add ν] (h : Histogram ν) (values : List ν) : Histogram ν :=
  values.foldl observe h

def LabelText (text : List Char) (labels : List (List Char × List Char)) : Prop :=
  ∃ parts, parts.Perm (labels.map part) ∧ text = '{' :: [','].intercalate parts ++ ['}']

/-- A sample of a bucket, with all labels of the metric. -/
def Marks (h : Histogram ν) (le : List Char) (s : Sample) : Prop :=
  s.name = sanitize texts h.name ++ "_bucket".toList ∧
    LabelText s.labels (h.labels ++ [("le".toList, le)])

def Shows (value : List Char) (n : Nat) : Prop := value = (toString n).toList ∨ value = texts.float n

/-- There is one sample of a bucket and it shows a count. -/
def Single (h : Histogram ν) (le : List Char) (n : Nat) : Prop :=
  ∃ before s after, h.samples texts = before ++ s :: after ∧ h.Marks texts le s ∧
    Shows texts s.value n ∧ ∀ s' ∈ before ++ after, ¬h.Marks texts le s'

/-- A sample with the labels of the metric alone. -/
def Plain (h : Histogram ν) (suffix value : List Char) : Prop :=
  ∃ s ∈ h.samples texts, s.name = sanitize texts h.name ++ suffix ∧ s.value = value ∧
    ((h.labels = [] ∧ s.labels = []) ∨ LabelText s.labels h.labels)

/-- The text of a histogram says what was observed. -/
structure Exported [LinearOrder ν] [Add ν] (h : Histogram ν) (values : List ν) : Prop where
  bucket : ∀ bound ∈ h.buckets, (h.observeAll values).Single texts (texts.number bound)
    (values.countP fun value => value ≤ bound)
  infinite : (h.observeAll values).Single texts "+Inf".toList values.length
  count : (h.observeAll values).Plain texts "_count".toList (toString values.length).toList
  sum : (h.observeAll values).Plain texts "_sum".toList
    (texts.number (values.foldl (fun total value => total + value) 0))

variable {texts} {h : Histogram ν}

theorem labelsStr_le : h.labelsStr ['l', 'e'] = '{' :: [','].intercalate
    ((h.labels.insertionSort fun l l' => l.1 ≤ l'.1).map part ++ [['l', 'e', '=', '?']]) ++ ['}'] := by
  rw [labelsStr]
  simp

/-- The extra label is one quote short, or two where no label is there to have one. -/
theorem count_leLabels {text : List Char} (htext : '"' ∉ text) :
    (h.leLabels text).count '"' < (h.labels.map part).flatten.count '"' + 2 := by
  have hnil : h.labelsStr ['l', 'e'] ≠ [] := by
    rw [labelsStr_le]
    exact List.cons_ne_nil _ _
  have hcount : (h.labelsStr ['l', 'e']).count '"' = (h.labels.map part).flatten.count '"' := by
    have hperm := ((List.perm_insertionSort (fun l l' : List Char × List Char => l.1 ≤ l'.1)
      h.labels).map part).flatten.count_eq '"'
    rw [labelsStr_le, List.cons_append, List.count_cons, List.count_append, count_intercalate,
      List.flatten_append, List.count_append, hperm]
    simp
  rw [leLabels, if_neg hnil]
  by_cases hmem : '"' ∈ h.labelsStr ['l', 'e']
  · have hreplaced := count_replaceFirst (quoted text) hmem
    have hquoted : (quoted text).count '"' = 2 := by
      rw [quoted, List.cons_append, List.count_cons_self, List.count_append,
        List.count_eq_zero.mpr htext]
      rfl
    rw [hquoted, hcount] at hreplaced
    omega
  · rw [replaceFirst_of_notMem hmem, hcount]
    omega

theorem count_labelText {text le : List Char} (h' : LabelText text (h.labels ++ [("le".toList, le)])) :
    (h.labels.map part).flatten.count '"' + 2 ≤ text.count '"' := by
  obtain ⟨parts, hperm, rfl⟩ := h'
  rw [List.map_append, List.map_singleton] at hperm
  rw [List.cons_append, List.count_cons, List.count_append, count_intercalate,
    hperm.flatten.count_eq, List.flatten_append, List.count_append]
  have hle : 2 ≤ [part ("le".toList, le)].flatten.count '"' := by
    rw [List.flatten_singleton, part, List.count_append, List.count_append, List.count_cons_self]
    simp
  omega

/-- No line that is put out has the label of a bucket. -/
theorem not_marks {s : Sample} (hs : s ∈ h.samples texts) (le : List Char) : ¬h.Marks texts le s := by
  rintro ⟨hname, hlabels⟩
  have hcount := count_labelText hlabels
  rw [samples] at hs
  rcases List.mem_append.mp hs with hs | hs
  · obtain ⟨i, hi, rfl⟩ := List.mem_mapIdx.mp hs
    exact absurd hcount (Nat.not_le.mpr (count_leLabels (texts.noQuote _)))
  · simp only [List.mem_cons, List.not_mem_nil, or_false] at hs
    rcases hs with rfl | rfl | rfl
    · exact absurd hcount (Nat.not_le.mpr (count_leLabels (by decide)))
    · exact absurd (List.append_cancel_left hname) (by decide)
    · exact absurd (List.append_cancel_left hname) (by decide)

section Observe

variable [LinearOrder ν] [Add ν] {values : List ν}

theorem observeAll_append (value : ν) :
    h.observeAll (values ++ [value]) = (h.observeAll values).observe value := by
  rw [observeAll, List.foldl_append]
  rfl

/-- What stays as it is, and what is counted and summed up over all buckets. -/
theorem observeAll_eq (values : List ν) : (h.observeAll values).name = h.name ∧
    (h.observeAll values).labels = h.labels ∧ (h.observeAll values).buckets = h.buckets ∧
    (h.observeAll values).count = h.count + values.length ∧
    (h.observeAll values).sum = values.foldl (fun total value => total + value) h.sum := by
  induction values using List.reverseRecOn with
  | nil => exact ⟨rfl, rfl, rfl, rfl, rfl⟩
  | append_singleton values value ih =>
      obtain ⟨hname, hlabels, hbuckets, hcount, hsum⟩ := ih
      rw [observeAll_append]
      refine ⟨hname, hlabels, hbuckets, ?_, ?_⟩
      · rw [observe, hcount, List.length_append, List.length_singleton, Nat.add_assoc]
      · rw [observe, hsum, List.foldl_append]
        rfl

/-- A bucket holds the values between its own bound and that of the bucket before. -/
theorem counts_observeAll (values : List ν) (i : Nat) :
    ((h.observeAll values).counts i).getD 0 = (h.counts i).getD 0 +
      values.countP fun value => h.buckets.findIdx? (fun bound => value ≤ bound) = some i := by
  induction values using List.reverseRecOn with
  | nil => rfl
  | append_singleton values value ih =>
      have hbuckets := (@observeAll_eq ν _ h _ _ values).2.2.1
      rw [observeAll_append, observe, hbuckets, List.countP_append, List.countP_singleton,
        ← Nat.add_assoc, ← ih]
      cases hfind : h.buckets.findIdx? fun bound => value ≤ bound with
      | none => simp
      | some j =>
          by_cases hj : j = i
          · subst hj
            simp
          · simp [hj, Function.update_of_ne (Ne.symm hj)]

omit [Add ν] in
/-- A bucket shows how many values are at most its bound just where none is at most an earlier
bound. -/
theorem counts_eq_iff {i : Nat} {bound : ν}
    (hbound : h.buckets[i]? = some bound) (values : List ν) :
    (values.countP fun value => h.buckets.findIdx? (fun b => value ≤ b) = some i) =
        (values.countP fun value => value ≤ bound) ↔
      ∀ value ∈ values, value ≤ bound → ∀ b ∈ h.buckets.take i, b < value := by
  obtain ⟨hi, rfl⟩ := List.getElem?_eq_some_iff.mp hbound
  have hfind (value : ν) : h.buckets.findIdx? (fun b => value ≤ b) = some i ↔
      value ≤ h.buckets[i] ∧ ∀ b ∈ h.buckets.take i, b < value := by
    rw [List.findIdx?_eq_some_iff_getElem]
    constructor
    · rintro ⟨_, hle, hbefore⟩
      refine ⟨of_decide_eq_true hle, fun b hb => ?_⟩
      obtain ⟨j, hj, rfl⟩ := List.mem_take_iff_getElem.mp hb
      exact not_le.mp fun hlt => hbefore j (by omega) (decide_eq_true hlt)
    · rintro ⟨hle, hbefore⟩
      refine ⟨hi, decide_eq_true hle, fun j hj htrue => ?_⟩
      have hmem : h.buckets[j] ∈ h.buckets.take i :=
        List.mem_take_iff_getElem.mpr ⟨j, by omega, rfl⟩
      exact absurd (of_decide_eq_true htrue) (not_le.mpr (hbefore _ hmem))
  rw [countP_eq_countP_iff]
  · simp only [decide_eq_true_eq, hfind]
    exact forall₂_congr fun value _ => ⟨fun h hle => (h hle).2, fun h hle => ⟨hle, h hle⟩⟩
  · intro value htrue
    exact decide_eq_true ((hfind value).mp (of_decide_eq_true htrue)).1

theorem plain_observeAll (texts : Texts ν) (h : Histogram ν) (values : List ν) :
    (h.observeAll values).Plain texts "_count".toList (toString (h.count + values.length)).toList ∧
    (h.observeAll values).Plain texts "_sum".toList
      (texts.number (values.foldl (fun total value => total + value) h.sum)) := by
  obtain ⟨-, -, -, hcount, hsum⟩ := @observeAll_eq ν _ h _ _ values
  have hlabels (h : Histogram ν) : (h.labels = [] ∧ h.labelsStr [] = []) ∨
      LabelText (h.labelsStr []) h.labels := by
    rw [labelsStr, if_pos rfl, List.append_nil]
    by_cases hnil : h.labels = []
    · left
      rw [hnil]
      exact ⟨rfl, rfl⟩
    · right
      have hperm := (List.perm_insertionSort (fun l l' : List Char × List Char => l.1 ≤ l'.1)
        h.labels).map part
      refine ⟨_, hperm, if_neg fun hempty => hnil ?_⟩
      rw [hempty] at hperm
      exact List.map_eq_nil_iff.mp hperm.symm.eq_nil
  refine ⟨⟨_, List.mem_append_right _ (.tail _ (.head _)), rfl, ?_, hlabels _⟩,
    ⟨_, List.mem_append_right _ (.tail _ (.tail _ (.head _))), rfl, ?_, hlabels _⟩⟩
  · rw [hcount]
  · rw [hsum]

end Observe

theorem not_single {le : List Char} {n : Nat} : ¬h.Single texts le n := by
  rintro ⟨before, s, after, hsplit, hmarks, -⟩
  refine not_marks (hsplit.symm ▸ ?_) le hmarks
  exact List.mem_append_right _ List.mem_cons_self

/-- No histogram is exported as it should: the lines of the buckets do not say which they are. -/
theorem not_exported [LinearOrder ν] [Add ν] (texts : Texts ν) (h : Histogram ν)
    (values : List ν) : ¬Exported texts h values :=
  fun hexported => not_single hexported.infinite

/-- What is written for the numbers three and five. -/
def threeFive : Texts Int where
  number x := if x = 3 then ['3'] else ['5']
  float n := (toString n).toList ++ ['.', '0']
  lower := id
  noQuote x := by
    split
    · decide
    · decide

theorem not_exported_three :
    ¬∀ (h : Histogram Int) (values : List Int), h.buckets.Pairwise (· < ·) →
      Exported threeFive h values := fun hall =>
  not_single (hall { name := "latency".toList, buckets := [5] } [3]
    (List.pairwise_singleton _ _)).infinite

end Histogram

end Prodinamik.Metrics
