import Mathlib.Data.List.Infix
import Prodinamik.Lib.Text
import Prodinamik.Lib.Words

namespace Prodinamik.Lib.Text

theorem contains_iff {needle s : List Char} : contains needle s = true ↔ needle <:+: s := by
  rw [contains, List.any_eq_true, List.infix_iff_prefix_suffix]
  constructor
  · rintro ⟨t, ht, hstart⟩
    exact ⟨t, List.isPrefixOf_iff_prefix.mp hstart, (List.mem_tails _ _).mp ht⟩
  · rintro ⟨t, hstart, hsuffix⟩
    exact ⟨t, (List.mem_tails _ _).mpr hsuffix, List.isPrefixOf_iff_prefix.mpr hstart⟩

theorem contains_false {needle s : List Char} {o : Char} (ho : o ∈ needle) (hs : o ∉ s) :
    contains needle s = false :=
  eq_false_of_ne_true fun h => hs ((contains_iff.mp h).subset ho)

section Split

variable {o : Char} {sep : List Char}

/-- A separator does not start before the place that the first o gives it. -/
theorem not_prefix_of_mem (ho : o ∈ sep) {c : Char} {q : List Char} (hq : o ∉ c :: q)
    (rest : List Char) : ¬ sep <+: c :: q ++ sep ++ rest := by
  obtain ⟨u, v, rfl, hu⟩ := List.eq_append_cons_of_mem ho
  intro hstart
  have hlt : u.length < (c :: q ++ u).length := by
    rw [List.length_append, List.length_cons]
    omega
  have hsame : (c :: q ++ (u ++ o :: v) ++ rest)[u.length]? = some o := by
    obtain ⟨t, ht⟩ := hstart
    rw [← ht, List.append_assoc, List.getElem?_append_right le_rfl, Nat.sub_self]
    rfl
  rw [← List.append_assoc, List.append_assoc, List.getElem?_append_left hlt] at hsame
  obtain hmem | hmem := List.mem_append.mp (List.mem_of_getElem? hsame)
  · exact hq hmem
  · exact hu hmem

theorem splitFrom_skip (acc skipped rest : List Char) :
    splitFrom sep acc skipped.length (skipped ++ rest) = splitFrom sep acc 0 rest := by
  induction skipped with
  | nil => rfl
  | cons c skipped ih => exact ih

theorem splitFrom_sep (ho : o ∈ sep) {part : List Char} (hpart : o ∉ part)
    (acc rest : List Char) : splitFrom sep acc 0 (part ++ sep ++ rest) =
      (acc.reverse ++ part) :: split sep rest := by
  induction part generalizing acc with
  | nil =>
      obtain ⟨c, cs, hsep⟩ := List.exists_cons_of_ne_nil (List.ne_nil_of_mem ho)
      have hstart : sep.isPrefixOf (c :: (cs ++ rest)) = true := by
        rw [List.isPrefixOf_iff_prefix, ← List.cons_append, ← hsep]
        exact List.prefix_append _ _
      have hlength : sep.length - 1 = cs.length := by rw [hsep]; rfl
      rw [List.nil_append, List.append_nil, split]
      conv_lhs => rw [hsep, List.cons_append, ← hsep]
      rw [splitFrom, if_pos hstart, hlength, splitFrom_skip]
  | cons c part ih =>
      have hnot := not_prefix_of_mem ho hpart rest
      rw [← List.isPrefixOf_iff_prefix, List.cons_append, List.cons_append] at hnot
      rw [List.cons_append, List.cons_append, splitFrom, if_neg hnot,
        ih (fun hc => hpart (List.mem_cons_of_mem _ hc)), List.reverse_cons, List.append_assoc]
      rfl

theorem split_sep (ho : o ∈ sep) {part : List Char} (hpart : o ∉ part) (rest : List Char) :
    split sep (part ++ sep ++ rest) = part :: split sep rest := by
  rw [split, splitFrom_sep ho hpart]
  rfl

theorem splitFrom_none (ho : o ∈ sep) {s : List Char} (hs : o ∉ s) (acc : List Char) :
    splitFrom sep acc 0 s = [acc.reverse ++ s] := by
  induction s generalizing acc with
  | nil => rw [splitFrom, List.append_nil]
  | cons c s ih =>
      have hnot : ¬ sep.isPrefixOf (c :: s) = true := by
        rw [List.isPrefixOf_iff_prefix]
        exact fun hstart => hs (hstart.subset ho)
      rw [splitFrom, if_neg hnot, ih fun hc => hs (List.mem_cons_of_mem _ hc), List.reverse_cons,
        List.append_assoc]
      rfl

theorem split_none (ho : o ∈ sep) {s : List Char} (hs : o ∉ s) : split sep s = [s] := by
  rw [split, splitFrom_none ho hs]
  rfl

/-- What is joined by a separator is split into the same parts. -/
theorem split_intercalate (ho : o ∈ sep) {parts : List (List Char)} (hne : parts ≠ [])
    (hparts : ∀ part ∈ parts, o ∉ part) : split sep (sep.intercalate parts) = parts := by
  induction parts with
  | nil => exact absurd rfl hne
  | cons part parts ih =>
      have hpart := hparts part List.mem_cons_self
      obtain rfl | hrest := eq_or_ne parts []
      · rw [List.intercalate_singleton, split_none ho hpart]
      · rw [List.intercalate_cons_of_ne_nil hrest, split_sep ho hpart,
          ih hrest fun p hp => hparts p (List.mem_cons_of_mem _ hp)]

theorem splitOnce_append (ho : o ∈ sep) {first : List Char} (hfirst : o ∉ first)
    (rest : List Char) : splitOnce sep (first ++ sep ++ rest) = (first, rest) := by
  rw [splitOnce, split_sep ho hfirst]
  simp only
  rw [← List.length_append, List.drop_left]

theorem splitFrom_head {s : List Char} (hne : sep ≠ []) (h : contains sep s = true)
    (acc : List Char) : ∃ u v rest, s = u ++ sep ++ v ∧
      splitFrom sep acc 0 s = (acc.reverse ++ u) :: rest := by
  induction s generalizing acc with
  | nil => exact absurd (List.infix_nil.mp (contains_iff.mp h)) hne
  | cons c s ih =>
      by_cases hstart : sep.isPrefixOf (c :: s) = true
      · obtain ⟨v, hv⟩ := List.isPrefixOf_iff_prefix.mp hstart
        refine ⟨[], v, split sep (s.drop (sep.length - 1)), hv.symm, ?_⟩
        obtain ⟨x, xs, rfl⟩ := List.exists_cons_of_ne_nil hne
        rw [List.cons_append, List.cons.injEq] at hv
        rw [splitFrom, if_pos hstart, List.append_nil, ← hv.2]
        refine congrArg (acc.reverse :: ·) ?_
        rw [List.length_cons, Nat.add_sub_cancel, splitFrom_skip, List.drop_left]
        rfl
      · have hrest : contains sep s = true := by
          rw [contains_iff, List.infix_cons_iff, ← List.isPrefixOf_iff_prefix] at h
          exact contains_iff.mpr (h.resolve_left hstart)
        obtain ⟨u, v, rest, hs, hsplit⟩ := ih hrest (c :: acc)
        refine ⟨c :: u, v, rest, congrArg (c :: ·) hs, ?_⟩
        rw [splitFrom, if_neg hstart, hsplit, List.reverse_cons, List.append_assoc]
        rfl

/-- The two parts and the separator are the whole. -/
theorem splitOnce_spec {s : List Char} (hne : sep ≠ []) (h : contains sep s = true) :
    s = (splitOnce sep s).1 ++ sep ++ (splitOnce sep s).2 := by
  obtain ⟨u, v, rest, hs, hsplit⟩ := splitFrom_head hne h []
  have hsplit' : split sep s = u :: rest := hsplit
  rw [splitOnce, hsplit']
  simp only
  conv_rhs => rw [hs]
  rw [← List.length_append, List.drop_left]
  exact hs

theorem contains_intercalate {qs : List (List Char)} (h : 2 ≤ qs.length) :
    contains sep (sep.intercalate qs) = true := by
  obtain ⟨q, qs, rfl⟩ := List.exists_cons_of_length_pos (Nat.zero_lt_of_lt h)
  have hne : qs ≠ [] := List.ne_nil_of_length_pos (Nat.lt_of_succ_lt_succ h)
  rw [contains_iff, List.intercalate_cons_of_ne_nil hne]
  exact List.infix_append _ _ _

end Split

section Strip

/-- A string that is not blank. -/
def Inked (s : List Char) : Prop := ∃ c ∈ s, isSpace c = false

theorem Inked.append_left {s : List Char} (h : Inked s) (t : List Char) : Inked (s ++ t) := by
  obtain ⟨c, hc, hspace⟩ := h
  exact ⟨c, List.mem_append_left _ hc, hspace⟩

theorem Inked.append_right {s : List Char} (h : Inked s) (t : List Char) : Inked (t ++ s) := by
  obtain ⟨c, hc, hspace⟩ := h
  exact ⟨c, List.mem_append_right _ hc, hspace⟩

theorem strip_eq_nil_iff {s : List Char} : strip s = [] ↔ ¬ Inked s := by
  constructor
  · rintro hnil ⟨c, hc, hspace⟩
    rw [strip, List.dropWhile_eq_nil_iff] at hnil
    obtain ⟨u, v, rfl⟩ := List.append_of_mem hc
    have hmem : c ∈ (u ++ c :: v).rdropWhile isSpace := by
      rw [rdropWhile_append_cons hspace]
      exact List.mem_append_right _ List.mem_cons_self
    rw [hnil c hmem] at hspace
    exact absurd hspace (by decide)
  · intro h
    have hall : ∀ c ∈ s, isSpace c = true := by
      intro c hc
      by_contra hspace
      exact h ⟨c, hc, eq_false_of_ne_true hspace⟩
    rw [strip, List.rdropWhile_eq_nil_iff.mpr hall]
    rfl

theorem strip_dropWhile (s : List Char) : strip (s.dropWhile isSpace) = strip s := by
  induction s with
  | nil => rfl
  | cons c s ih =>
      cases hc : isSpace c with
      | true => rw [List.dropWhile_cons_of_pos hc, ih, strip_cons_space hc]
      | false => rw [List.dropWhile_cons_of_neg (by simp [hc])]

/-- A character that is no blank ends what is taken off in front. -/
theorem dropWhile_append_cons {c : Char} (hc : isSpace c = false) (s t : List Char) :
    (s ++ c :: t).dropWhile isSpace = s.dropWhile isSpace ++ c :: t := by
  have hneg : ∀ {x}, isSpace x = false → ¬ isSpace x = true := fun h => by simp [h]
  induction s with
  | nil => exact List.dropWhile_cons_of_neg (hneg hc)
  | cons d s ih =>
      rw [List.cons_append]
      cases hd : isSpace d with
      | true => rw [List.dropWhile_cons_of_pos hd, List.dropWhile_cons_of_pos hd, ih]
      | false =>
          rw [List.dropWhile_cons_of_neg (hneg hd), List.dropWhile_cons_of_neg (hneg hd),
            List.cons_append]

theorem dropWhile_strip (s : List Char) : (strip s).dropWhile isSpace = strip s :=
  List.dropWhile_idempotent isSpace _

theorem dropWhile_append {s : List Char} (h : Inked s) (t : List Char) :
    (s ++ t).dropWhile isSpace = s.dropWhile isSpace ++ t := by
  induction s with
  | nil =>
      obtain ⟨c, hc, -⟩ := h
      exact absurd hc List.not_mem_nil
  | cons c s ih =>
      cases hc : isSpace c with
      | true =>
          rw [List.cons_append, List.dropWhile_cons_of_pos hc, List.dropWhile_cons_of_pos hc]
          obtain ⟨x, hx, hspace⟩ := h
          obtain rfl | hx := List.mem_cons.mp hx
          · rw [hspace] at hc
            exact absurd hc (by decide)
          · exact ih ⟨x, hx, hspace⟩
      | false =>
          have hneg : ¬ isSpace c = true := by rw [hc]; exact Bool.false_ne_true
          rw [List.cons_append, List.dropWhile_cons_of_neg hneg, List.dropWhile_cons_of_neg hneg]
          rfl

theorem rdropWhile_append (s : List Char) {t : List Char} (h : Inked t) :
    (s ++ t).rdropWhile isSpace = s ++ t.rdropWhile isSpace := by
  obtain ⟨c, hc, hspace⟩ := h
  obtain ⟨u, v, rfl⟩ := List.append_of_mem hc
  rw [← List.append_assoc, rdropWhile_append_cons hspace, rdropWhile_append_cons hspace,
    List.append_assoc]

theorem strip_blank_left {b : List Char} (hb : ∀ c ∈ b, isSpace c) (s : List Char) :
    strip (b ++ s) = strip s := by
  induction b with
  | nil => rfl
  | cons c b ih =>
      rw [List.cons_append, strip_cons_space (hb c List.mem_cons_self)]
      exact ih fun x hx => hb x (List.mem_cons_of_mem _ hx)

theorem strip_blank_right {b : List Char} (hb : ∀ c ∈ b, isSpace c) (s : List Char) :
    strip (s ++ b) = strip s := by
  induction b using List.reverseRecOn with
  | nil => rw [List.append_nil]
  | append_singleton b c ih =>
      have hc : isSpace c := hb c (List.mem_append_right _ (List.mem_singleton_self c))
      rw [← List.append_assoc, strip, List.rdropWhile_concat_pos _ _ _ hc]
      exact ih fun x hx => hb x (List.mem_append_left _ hx)

theorem parseInt_strip (s : List Char) : parseInt (strip s) = parseInt s := by
  rw [parseInt, parseInt, strip_strip]

/-- Only the ends are trimmed. -/
theorem strip_append {s t : List Char} (hs : Inked s) (ht : Inked t) (m : List Char) :
    strip (s ++ m ++ t) = s.dropWhile isSpace ++ m ++ t.rdropWhile isSpace := by
  rw [strip, rdropWhile_append _ ht, List.append_assoc, dropWhile_append hs, List.append_assoc]

theorem mem_strip {s : List Char} {c : Char} (hspace : isSpace c = false) : c ∈ strip s ↔ c ∈ s := by
  refine ⟨mem_of_mem_strip, fun hc => ?_⟩
  obtain ⟨u, v, rfl⟩ := List.append_of_mem hc
  have hu : Inked (u ++ [c]) := ⟨c, List.mem_append_right _ (List.mem_singleton_self c), hspace⟩
  rw [strip, rdropWhile_append_cons hspace, ← List.singleton_append, ← List.append_assoc,
    dropWhile_append hu]
  refine List.mem_append_left _ ?_
  have hdrop : (u ++ [c]).dropWhile isSpace = u.dropWhile isSpace ++ [c] := by
    by_cases hink : Inked u
    · rw [dropWhile_append hink]
    · have hall : ∀ x ∈ u, isSpace x = true := by
        intro x hx
        by_contra hx'
        exact hink ⟨x, hx, eq_false_of_ne_true hx'⟩
      rw [List.dropWhile_append_of_pos hall, List.dropWhile_eq_nil_iff.mpr hall]
      exact List.dropWhile_cons_of_neg (by rw [hspace]; exact Bool.false_ne_true)
  rw [hdrop]
  exact List.mem_append_right _ (List.mem_singleton_self c)

/-- Parts that differ in blanks at their ends only. -/
def SameStripped (ps qs : List (List Char)) : Prop := ps.map strip = qs.map strip

theorem SameStripped.inked {ps qs : List (List Char)} (h : SameStripped ps qs)
    (hqs : ∀ q ∈ qs, Inked q) : ∀ p ∈ ps, Inked p := by
  intro p hp
  have hmem : strip p ∈ qs.map strip := h ▸ List.mem_map_of_mem hp
  obtain ⟨q, hq, heq⟩ := List.mem_map.mp hmem
  by_contra hink
  rw [strip_eq_nil_iff.mpr hink, strip_eq_nil_iff] at heq
  exact heq (hqs q hq)

theorem SameStripped.not_mem {ps qs : List (List Char)} (h : SameStripped ps qs) {o : Char}
    (hspace : isSpace o = false) (hqs : ∀ q ∈ qs, o ∉ q) : ∀ p ∈ ps, o ∉ p := by
  intro p hp hop
  have hmem : strip p ∈ qs.map strip := h ▸ List.mem_map_of_mem hp
  obtain ⟨q, hq, heq⟩ := List.mem_map.mp hmem
  refine hqs q hq ((mem_strip hspace).mp ?_)
  rw [heq]
  exact (mem_strip hspace).mpr hop

theorem SameStripped.ne_nil {ps qs : List (List Char)} (h : SameStripped ps qs) (hqs : qs ≠ []) :
    ps ≠ [] := by
  rintro rfl
  exact hqs (List.map_eq_nil_iff.mp h.symm)

theorem inked_intercalate {ps : List (List Char)} (hne : ps ≠ []) (hps : ∀ p ∈ ps, Inked p)
    (sep : List Char) : Inked (sep.intercalate ps) := by
  cases ps with
  | nil => exact absurd rfl hne
  | cons p ps =>
      have hp := hps p List.mem_cons_self
      obtain rfl | hrest := eq_or_ne ps []
      · rwa [List.intercalate_singleton]
      · rw [List.intercalate_cons_of_ne_nil hrest, List.append_assoc]
        exact hp.append_left _

theorem exists_rdropWhile_intercalate {ps : List (List Char)} (hps : ∀ p ∈ ps, Inked p)
    (sep : List Char) : ∃ qs, SameStripped qs ps ∧
      (sep.intercalate ps).rdropWhile isSpace = sep.intercalate qs := by
  induction ps with
  | nil => exact ⟨[], rfl, rfl⟩
  | cons p ps ih =>
      have hrest : ∀ q ∈ ps, Inked q := fun q hq => hps q (List.mem_cons_of_mem _ hq)
      obtain rfl | hne := eq_or_ne ps []
      · refine ⟨[p.rdropWhile isSpace], ?_, ?_⟩
        · rw [SameStripped, List.map_singleton, List.map_singleton, strip_rdropWhile]
        · rw [List.intercalate_singleton, List.intercalate_singleton]
      · obtain ⟨qs, hsame, heq⟩ := ih hrest
        refine ⟨p :: qs, congrArg (strip p :: ·) hsame, ?_⟩
        rw [List.intercalate_cons_of_ne_nil hne, List.intercalate_cons_of_ne_nil (hsame.ne_nil hne),
          rdropWhile_append _ (inked_intercalate hne hrest sep), heq]

theorem exists_dropWhile_intercalate {ps : List (List Char)} (hps : ∀ p ∈ ps, Inked p)
    (sep : List Char) : ∃ qs, SameStripped qs ps ∧
      (sep.intercalate ps).dropWhile isSpace = sep.intercalate qs := by
  cases ps with
  | nil => exact ⟨[], rfl, rfl⟩
  | cons p ps =>
      refine ⟨p.dropWhile isSpace :: ps, ?_, ?_⟩
      · rw [SameStripped, List.map_cons, List.map_cons, strip_dropWhile]
      · obtain rfl | hne := eq_or_ne ps []
        · rw [List.intercalate_singleton, List.intercalate_singleton]
        · rw [List.intercalate_cons_of_ne_nil hne, List.intercalate_cons_of_ne_nil hne,
            List.append_assoc, List.append_assoc, dropWhile_append (hps p List.mem_cons_self)]

/-- A joined string that is trimmed is joined of parts that are trimmed a little. -/
theorem exists_strip_intercalate {ps : List (List Char)} (hps : ∀ p ∈ ps, Inked p)
    (sep : List Char) : ∃ qs, SameStripped qs ps ∧
      strip (sep.intercalate ps) = sep.intercalate qs := by
  obtain ⟨qs, hqs, hright⟩ := exists_rdropWhile_intercalate hps sep
  obtain ⟨rs, hrs, hleft⟩ := exists_dropWhile_intercalate (hqs.inked hps) sep
  exact ⟨rs, hrs.trans hqs, by rw [strip, hright, hleft]⟩

end Strip

end Prodinamik.Lib.Text
