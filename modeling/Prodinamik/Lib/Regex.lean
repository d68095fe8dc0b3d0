import Mathlib.Data.List.Basic
import Mathlib.Data.List.Infix

namespace Prodinamik.Lib.Regex

/-- Regular expressions as a backtracking matcher reads them, with a single
group at most. -/
inductive Re
  | lit (word : List Char)
  | many (greedy : Bool) (p : Char → Bool)
  | seq (r s : Re)
  | opt (r : Re)
  | group (r : Re)

/-- One way to match at a place: the text, what the group has caught, and the
rest of the input. -/
structure Way where
  text : List Char
  caught : Option (List Char)
  rest : List Char

/-- The ways to read characters of a class, fewest first. -/
def runs (p : Char → Bool) : List Char → List Way
  | [] => [⟨[], none, []⟩]
  | c :: s =>
      ⟨[], none, c :: s⟩ ::
        if p c then (runs p s).map fun m => { m with text := c :: m.text } else []

/-- The ways to match at the beginning of a text, the preferred one first. -/
def ways : Re → List Char → List Way
  | .lit word, s => if word <+: s then [⟨word, none, s.drop word.length⟩] else []
  | .many greedy p, s => if greedy then (runs p s).reverse else runs p s
  | .seq r q, s =>
      (ways r s).flatMap fun m => (ways q m.rest).map fun m' =>
        ⟨m.text ++ m'.text, m'.caught.or m.caught, m'.rest⟩
  | .opt r, s => ways r s ++ [⟨[], none, s⟩]
  | .group r, s => (ways r s).map fun m => { m with caught := some m.text }

/-- The preferred way at the first place where there is one. -/
def search (r : Re) (s : List Char) : Option Way := s.tails.findSome? fun t => (ways r t).head?

/-- What a regular expression stands for, without a preference. -/
inductive Matches : Re → List Char → Option (List Char) → Prop
  | lit {word : List Char} : Matches (.lit word) word none
  | many {greedy : Bool} {p : Char → Bool} {u : List Char} (hall : ∀ c ∈ u, p c = true) :
      Matches (.many greedy p) u none
  | seq {r q : Re} {u v : List Char} {g g' : Option (List Char)} (hr : Matches r u g)
      (hq : Matches q v g') : Matches (.seq r q) (u ++ v) (g'.or g)
  | absent {r : Re} : Matches (.opt r) [] none
  | present {r : Re} {u : List Char} {g : Option (List Char)} (hr : Matches r u g) :
      Matches (.opt r) u g
  | group {r : Re} {u : List Char} {g : Option (List Char)} (hr : Matches r u g) :
      Matches (.group r) u (some u)

theorem mem_runs {p : Char → Bool} {s : List Char} {m : Way} :
    m ∈ runs p s ↔ s = m.text ++ m.rest ∧ m.caught = none ∧ ∀ c ∈ m.text, p c = true := by
  induction s generalizing m with
  | nil =>
      rw [runs, List.mem_singleton]
      constructor
      · rintro rfl
        exact ⟨rfl, rfl, fun c hc => (List.not_mem_nil hc).elim⟩
      · obtain ⟨text, caught, rest⟩ := m
        rintro ⟨hs, rfl, -⟩
        obtain ⟨rfl, rfl⟩ := List.append_eq_nil_iff.mp hs.symm
        rfl
  | cons c s ih =>
      rw [runs, List.mem_cons]
      constructor
      · rintro (rfl | hm)
        · exact ⟨rfl, rfl, fun d hd => (List.not_mem_nil hd).elim⟩
        · by_cases hc : p c = true
          · rw [if_pos hc] at hm
            obtain ⟨m', hm', rfl⟩ := List.mem_map.mp hm
            obtain ⟨hs, hnone, hall⟩ := ih.mp hm'
            exact ⟨congrArg (c :: ·) hs, hnone, List.forall_mem_cons.mpr ⟨hc, hall⟩⟩
          · rw [if_neg hc] at hm
            exact (List.not_mem_nil hm).elim
      · obtain ⟨text, caught, rest⟩ := m
        rintro ⟨hs, rfl, hall⟩
        cases text with
        | nil =>
            obtain rfl := hs
            exact .inl rfl
        | cons d text =>
            obtain ⟨rfl, rfl⟩ := List.cons.inj hs
            obtain ⟨hc, hall⟩ := List.forall_mem_cons.mp hall
            refine .inr ?_
            rw [if_pos hc]
            exact List.mem_map.mpr ⟨⟨text, none, rest⟩, ih.mpr ⟨rfl, rfl, hall⟩, rfl⟩

/-- Backtracking finds the matches and nothing else. -/
theorem mem_ways {r : Re} {s : List Char} {m : Way} :
    m ∈ ways r s ↔ s = m.text ++ m.rest ∧ Matches r m.text m.caught := by
  induction r generalizing s m with
  | lit word =>
      rw [ways]
      constructor
      · intro hm
        by_cases hword : word <+: s
        · rw [if_pos hword] at hm
          obtain rfl := List.mem_singleton.mp hm
          exact ⟨List.prefix_iff_eq_append.mp hword |>.symm, .lit⟩
        · rw [if_neg hword] at hm
          exact (List.not_mem_nil hm).elim
      · obtain ⟨text, caught, rest⟩ := m
        rintro ⟨rfl, hmatch⟩
        cases hmatch
        rw [if_pos (List.prefix_append _ _), List.drop_left]
        exact List.mem_singleton_self _
  | many greedy p =>
      have hruns : m ∈ ways (.many greedy p) s ↔ m ∈ runs p s := by
        rw [ways]
        cases greedy with
        | false => exact Iff.rfl
        | true => exact List.mem_reverse
      rw [hruns, mem_runs]
      refine and_congr_right fun _ => ?_
      constructor
      · obtain ⟨text, caught, rest⟩ := m
        rintro ⟨rfl, hall⟩
        exact .many hall
      · intro hmatch
        obtain ⟨text, caught, rest⟩ := m
        cases hmatch with
        | many hall => exact ⟨rfl, hall⟩
  | seq r q ihr ihq =>
      rw [ways, List.mem_flatMap]
      constructor
      · rintro ⟨m₁, hm₁, hm⟩
        obtain ⟨m₂, hm₂, rfl⟩ := List.mem_map.mp hm
        obtain ⟨rfl, hr⟩ := ihr.mp hm₁
        obtain ⟨hrest, hq⟩ := ihq.mp hm₂
        refine ⟨?_, .seq hr hq⟩
        rw [List.append_assoc, ← hrest]
      · obtain ⟨text, caught, rest⟩ := m
        rintro ⟨rfl, hmatch⟩
        cases hmatch with
        | @seq _ _ u v g g' hr hq =>
            refine ⟨⟨u, g, v ++ rest⟩, ihr.mpr ⟨List.append_assoc .., hr⟩, ?_⟩
            exact List.mem_map.mpr ⟨⟨v, g', rest⟩, ihq.mpr ⟨rfl, hq⟩, rfl⟩
  | opt r ih =>
      rw [ways, List.mem_append, List.mem_singleton]
      constructor
      · rintro (hm | rfl)
        · obtain ⟨hs, hr⟩ := ih.mp hm
          exact ⟨hs, .present hr⟩
        · exact ⟨rfl, .absent⟩
      · obtain ⟨text, caught, rest⟩ := m
        rintro ⟨rfl, hmatch⟩
        cases hmatch with
        | absent => exact .inr rfl
        | present hr => exact .inl (ih.mpr ⟨rfl, hr⟩)
  | group r ih =>
      rw [ways, List.mem_map]
      constructor
      · rintro ⟨m', hm', rfl⟩
        obtain ⟨hs, hr⟩ := ih.mp hm'
        exact ⟨hs, .group hr⟩
      · obtain ⟨text, caught, rest⟩ := m
        rintro ⟨rfl, hmatch⟩
        change Matches (.group r) text caught at hmatch
        cases hmatch with
        | @group _ _ g hr => exact ⟨⟨text, g, rest⟩, ih.mpr ⟨rfl, hr⟩, rfl⟩

theorem search_some {r : Re} {s : List Char} {m : Way} (h : search r s = some m) :
    ∃ front, s = front ++ (m.text ++ m.rest) ∧ Matches r m.text m.caught := by
  obtain ⟨t, ht, hhead⟩ := List.exists_of_findSome?_eq_some h
  obtain ⟨front, rfl⟩ := (List.mem_tails _ _).mp ht
  obtain ⟨rfl, hmatch⟩ := mem_ways.mp (List.mem_of_head? hhead)
  exact ⟨front, rfl, hmatch⟩

/-- Where some text of the input matches, the search finds one. -/
theorem search_isSome {r : Re} {front u back : List Char} {g : Option (List Char)}
    (h : Matches r u g) : (search r (front ++ (u ++ back))).isSome := by
  rw [search, List.findSome?_isSome_iff]
  refine ⟨u ++ back, (List.mem_tails _ _).mpr (List.suffix_append _ _), ?_⟩
  have hmem : (⟨u, g, back⟩ : Way) ∈ ways r (u ++ back) := mem_ways.mpr ⟨rfl, h⟩
  exact List.isSome_head?.mpr (List.ne_nil_of_mem hmem)

theorem search_none {r : Re} {s : List Char}
    (h : ∀ front u back g, s = front ++ (u ++ back) → ¬ Matches r u g) : search r s = none := by
  by_contra hsome
  obtain ⟨m, hm⟩ := Option.ne_none_iff_exists'.mp hsome
  obtain ⟨front, hs, hmatch⟩ := search_some hm
  exact h front _ _ _ hs hmatch

/-- If every match in a text catches the same, so does the one that is found. -/
theorem search_caught {r : Re} {front u back : List Char} {g g' : Option (List Char)}
    (h : Matches r u g')
    (hall : ∀ front' u' back' g', front ++ (u ++ back) = front' ++ (u' ++ back') →
      Matches r u' g' → g' = g) :
    ∃ m, search r (front ++ (u ++ back)) = some m ∧ m.caught = g := by
  have hsome : (search r (front ++ (u ++ back))).isSome := search_isSome h
  obtain ⟨m, hm⟩ := Option.isSome_iff_exists.mp hsome
  obtain ⟨front', hs, hmatch⟩ := search_some hm
  exact ⟨m, hm, hall _ _ _ _ hs hmatch⟩

/-! Two ways to cut a text in parts. -/

section Cuts

variable {α : Type}

/-- A part with an element that the other first part lacks goes beyond that one. -/
theorem cut_past {s t u v : List α} {y : α} (h : s ++ t = u ++ v) (hs : y ∈ s) (hu : y ∉ u) :
    ∃ s', s = u ++ s' ∧ v = s' ++ t := by
  rcases List.append_eq_append_iff.mp h with ⟨d, hd, -⟩ | ⟨s', hs', hv⟩
  · exact absurd (hd ▸ List.mem_append_left d hs) hu
  · exact ⟨s', hs', hv⟩

theorem cut_at {s t a b : List α} {x : α} (h : s ++ t = a ++ x :: b) (hs : x ∉ s) :
    ∃ a', a = s ++ a' ∧ t = a' ++ x :: b := by
  rcases List.append_eq_append_iff.mp h with ⟨a', ha, ht⟩ | ⟨c, hc, hx⟩
  · exact ⟨a', ha, ht⟩
  · cases c with
    | nil => exact ⟨[], by rw [hc, List.append_nil, List.append_nil], hx.symm⟩
    | cons d c =>
        obtain ⟨rfl, -⟩ := List.cons.inj hx
        exact absurd (hc ▸ List.mem_append_right a List.mem_cons_self) hs

/-- A run of a class ends where the first element outside the class stands. -/
theorem cut_class {p : α → Bool} {s s' t t' : List α} {x x' : α} (h : s ++ x :: t = s' ++ x' :: t')
    (hs : ∀ c ∈ s, p c = true) (hs' : ∀ c ∈ s', p c = true) (hx : p x = false) (hx' : p x' = false) :
    s = s' ∧ x = x' ∧ t = t' := by
  have hnot : ∀ {u : List α} {c : α}, (∀ d ∈ u, p d = true) → p c = false → c ∉ u := by
    intro u c hu hc hmem
    rw [hu c hmem] at hc
    cases hc
  obtain ⟨a, ha, ht⟩ := cut_at h (hnot hs hx')
  cases a with
  | nil =>
      obtain ⟨rfl, rfl⟩ := List.cons.inj ht
      exact ⟨by rw [ha, List.append_nil], rfl, rfl⟩
  | cons d a =>
      obtain ⟨rfl, -⟩ := List.cons.inj ht
      exact absurd (ha ▸ List.mem_append_right s List.mem_cons_self) (hnot hs' hx)

end Cuts

end Prodinamik.Lib.Regex
