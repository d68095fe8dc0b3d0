import Prodinamik.Agents.Action
import Prodinamik.Lib.JsonScan

namespace Prodinamik.Agents

open Lib Lib.Json Lib.Regex Lib.Text

variable {fl : Floats}

/-- The character of which a fence is made. -/
def tick : Char := Char.ofNat 96

def ticks : List Char := "```".toList

theorem ticks_append (s : List Char) : ticks ++ s = tick :: tick :: tick :: s := rfl

/-- What stands in a match of the first pattern behind the opening fence. -/
def behind (tag blanks body blanks' : List Char) : List Char :=
  tag ++ (blanks ++ '\n' :: '{' :: (body ++ '}' :: '\n' :: (blanks' ++ ticks)))

def Blank (s : List Char) : Prop := ∀ c ∈ s, isSpace c = true

def Tag (tag : List Char) : Prop := tag = [] ∨ tag = "json".toList

theorem matches_fence {u : List Char} {g : Option (List Char)} :
    Matches fence u g ↔ ∃ tag blanks body blanks', Tag tag ∧ Blank blanks ∧ Blank blanks' ∧
      u = ticks ++ behind tag blanks body blanks' ∧ g = some ('{' :: (body ++ ['}'])) := by
  constructor
  · intro h
    cases h with
    | seq hopen h =>
    cases hopen
    cases h with
    | seq htag h =>
    cases h with
    | seq hblanks h =>
    cases hblanks with
    | many hblanks =>
    cases h with
    | seq hline h =>
    cases hline
    cases h with
    | seq hgroup h =>
    cases hgroup with
    | group hbody =>
    cases hbody with
    | seq hbrace hbody =>
    cases hbrace
    cases hbody with
    | @seq _ _ body _ _ _ hbody hbrace =>
    cases hbody
    cases hbrace
    cases h with
    | seq hline h =>
    cases hline
    cases h with
    | seq hblanks' hclose =>
    cases hblanks' with
    | many hblanks' =>
    cases hclose
    cases htag with
    | absent => exact ⟨[], _, body, _, .inl rfl, hblanks, hblanks', by simp [behind, ticks], rfl⟩
    | present htag =>
        cases htag
        exact ⟨_, _, body, _, .inr rfl, hblanks, hblanks', by simp [behind, ticks], rfl⟩
  · rintro ⟨tag, blanks, body, blanks', htag, hblanks, hblanks', rfl, rfl⟩
    have hopt : Matches (.opt (.lit "json".toList)) tag none := by
      rcases htag with rfl | rfl
      · exact .absent
      · exact .present .lit
    have hgroup : Matches (.group (.seq (.lit ['{']) (.seq (.many false fun _ => true) (.lit ['}']))))
        ('{' :: (body ++ ['}'])) (some ('{' :: (body ++ ['}']))) :=
      .group (.seq .lit (.seq (.many fun _ _ => rfl) .lit))
    have hticks : Matches (.lit ticks) ticks none := .lit
    have hline : Matches (.lit ['\n']) ['\n'] none := .lit
    have hrun : ∀ {w}, Blank w → Matches (.many true isSpace) w none := fun hw => .many hw
    have hall := hticks.seq (hopt.seq ((hrun hblanks).seq (hline.seq (hgroup.seq (hline.seq
      ((hrun hblanks').seq hticks))))))
    simpa [behind, ticks, fence] using hall

theorem not_space_tick : isSpace tick = false := by decide

theorem Blank.not_mem {s : List Char} (h : Blank s) {c : Char} (hc : isSpace c = false) : c ∉ s := by
  intro hmem
  rw [h c hmem] at hc
  cases hc

theorem Blank.not_mem_close {s : List Char} (h : Blank s) {c : Char} (hspace : isSpace c = false)
    (htick : c ∉ ticks) : c ∉ s ++ ticks := fun hmem =>
  (List.mem_append.mp hmem).elim (h.not_mem hspace) htick

/-! A fence within the JSON text. -/

theorem scan_blanks_inside {blanks : List Char} (h : Blank blanks) (z : List Char) :
    scan .inside (blanks ++ '\n' :: z) = none := by
  induction blanks with
  | nil => rfl
  | cons c blanks ih =>
      obtain ⟨hc, h⟩ := List.forall_mem_cons.mp h
      have hquote : c ≠ '"' := by
        rintro rfl
        exact absurd hc (by decide)
      have hback : c ≠ '\\' := by
        rintro rfl
        exact absurd hc (by decide)
      rw [List.cons_append, scan_cons, Mode.step, if_neg hquote, if_neg hback]
      by_cases hcontrol : c.toNat < 32
      · rw [if_pos hcontrol]
        rfl
      · rw [if_neg hcontrol, Option.bind_some]
        exact ih h

theorem scan_blanks_outside {blanks : List Char} (h : Blank blanks) (z : List Char) :
    scan .outside (blanks ++ tick :: z) = none := by
  induction blanks with
  | nil => rfl
  | cons c blanks ih =>
      obtain ⟨hc, h⟩ := List.forall_mem_cons.mp h
      have hquote : c ≠ '"' := by
        rintro rfl
        exact absurd hc (by decide)
      rw [List.cons_append, scan_cons, Mode.step, if_neg hquote]
      cases bare c with
      | false => rfl
      | true => exact ih h

/-- A fence within a string is not followed by a line end. -/
theorem no_opening_fence {m : Mode} {tag blanks : List Char} (htag : Tag tag) (h : Blank blanks)
    (z : List Char) : scan m (ticks ++ (tag ++ (blanks ++ '\n' :: z))) = none := by
  have hinside : scan .inside (tick :: tick :: (tag ++ (blanks ++ '\n' :: z))) = none := by
    rcases htag with rfl | rfl
    · exact scan_blanks_inside h z
    · exact scan_blanks_inside h z
  cases m with
  | outside => rfl
  | inside => exact hinside
  | escaped => exact hinside

/-- No line end within a string, and no fence outside of them. -/
theorem no_closing_fence {m : Mode} {blanks : List Char} (h : Blank blanks) (z : List Char) :
    scan m ('\n' :: (blanks ++ (ticks ++ z))) = none := by
  cases m with
  | outside => exact scan_blanks_outside h _
  | inside => rfl
  | escaped => rfl

theorem scan_part {s t : List Char} {m : Mode} (h : scan m (s ++ t) ≠ none)
    (ht : ∀ m', scan m' t = none) : False := by
  rw [scan_append] at h
  cases hs : scan m s with
  | none =>
      rw [hs] at h
      exact h rfl
  | some m' =>
      rw [hs, Option.bind_some, ht m'] at h
      exact h rfl

/-! The responses that the system prompt asks for. -/

/-- Text without braces or code fences. -/
structure Prose where
  text : List Char
  noOpening : '{' ∉ text
  noClosing : '}' ∉ text
  noFence : ¬ ticks <:+: text

/-- The JSON text of {"action": A} for a non-empty object A. -/
structure ActionText (fl : Floats) (members : List (String × Value fl.Num)) where
  text : List Char
  reads : loads fl text = some (.obj [("action", .obj members)])
  braced : ∃ u, text = '{' :: (u ++ ['}'])
  nonempty : members ≠ []

/-- How the JSON text stands in the response; within a fence there may be
blanks before and after it. -/
inductive Layout
  | fenced (before after : List Char) (hbefore : Blank before) (hafter : Blank after)
  | bare

namespace Layout

def lay : Layout → List Char → List Char
  | fenced before after _ _, text => ticks ++ ("json".toList ++ (before ++ (text ++ (after ++ ticks))))
  | bare, text => text

/-- The JSON text has whole lines of a fence to itself. -/
def Lined : Layout → Prop
  | fenced before after _ _ => before.getLast? = some '\n' ∧ after.head? = some '\n'
  | bare => False

instance : (layout : Layout) → Decidable layout.Lined
  | fenced before after _ _ =>
      inferInstanceAs (Decidable (before.getLast? = some '\n' ∧ after.head? = some '\n'))
  | bare => inferInstanceAs (Decidable False)

end Layout

/-- _parse_action returns the action, and not an assumed completion. -/
def Extracts (host : Host fl) (content : List Char) (action : Value fl.Num) : Prop :=
  parseAction host content = action ∧ (findAction host content).isSome

theorem extracts_iff_find {host : Host fl} {content : List Char} {action : Value fl.Num} :
    Extracts host content action ↔ findAction host content = some action := by
  rw [Extracts, parseAction]
  cases findAction host content with
  | none => simp
  | some a => simp

theorem head_behind {tag blanks z : List Char} (htag : Tag tag) (h : Blank blanks) :
    (tag ++ (blanks ++ '\n' :: z)).head? ≠ some tick := by
  rcases htag with rfl | rfl
  · cases blanks with
    | nil => exact (by decide : some '\n' ≠ some tick)
    | cons c blanks =>
        intro hc
        have hspace := h c List.mem_cons_self
        rw [Option.some.inj hc, not_space_tick] at hspace
        cases hspace
  · exact (by decide : some 'j' ≠ some tick)

/-- A fence that opens in a response opens behind the prose. -/
theorem opens_behind (prose : Prose) {t front z : List Char}
    (h : prose.text ++ t = front ++ (ticks ++ z)) :
    (∃ a, front = prose.text ++ a ∧ t = a ++ (ticks ++ z)) ∨ t = tick :: tick :: z ∨ t = tick :: z := by
  rcases List.append_eq_append_iff.mp h with ⟨a, ha, ht⟩ | ⟨c, hc, ht⟩
  · exact .inl ⟨a, ha, ht⟩
  · cases c with
    | nil => exact .inl ⟨[], by rw [hc, List.append_nil, List.append_nil], ht.symm⟩
    | cons c₁ c =>
        rw [ticks_append] at ht
        obtain ⟨rfl, hsecond⟩ := List.cons.inj ht
        cases c with
        | nil => exact .inr (.inl hsecond.symm)
        | cons c₂ c =>
            obtain ⟨rfl, hthird⟩ := List.cons.inj hsecond
            cases c with
            | nil => exact .inr (.inr hthird.symm)
            | cons c₃ c =>
                obtain ⟨rfl, -⟩ := List.cons.inj hthird
                exact absurd ⟨front, c, by rw [hc, List.append_assoc]; rfl⟩ prose.noFence

/-- The JSON text has no fence with a line end behind it. -/
theorem ActionText.no_fence {members : List (String × Value fl.Num)} (json : ActionText fl members)
    {a tag blanks z : List Char} (htag : Tag tag) (h : Blank blanks) :
    json.text ≠ a ++ (ticks ++ (tag ++ (blanks ++ '\n' :: z))) := by
  intro htext
  have hscan := scan_of_loads json.reads
  rw [htext] at hscan
  exact scan_part (hscan ▸ Option.some_ne_none _) fun m => no_opening_fence htag h z

/-- Nor a line end with a fence behind it. -/
theorem ActionText.no_closing {members : List (String × Value fl.Num)} (json : ActionText fl members)
    {a blanks z : List Char} (h : Blank blanks) :
    json.text ≠ a ++ '\n' :: (blanks ++ (ticks ++ z)) := by
  intro htext
  have hscan := scan_of_loads json.reads
  rw [htext] at hscan
  exact scan_part (hscan ▸ Option.some_ne_none _) fun m => no_closing_fence h z

theorem ActionText.last_mem {members : List (String × Value fl.Num)} (json : ActionText fl members)
    {a c : List Char} (h : json.text = a ++ c) (hne : c ≠ []) : '}' ∈ c := by
  obtain ⟨u, hu⟩ := json.braced
  have hlast : (a ++ c).getLast? = some '}' := by
    rw [← h, hu, ← List.cons_append, List.getLast?_append_cons]
    rfl
  rw [List.getLast?_append_of_ne_nil _ hne] at hlast
  exact List.mem_of_getLast? hlast

/-- Behind the closing brace of a text that is cut within a fence, the rest of
the fence is cut off. -/
theorem past_ticks {c z w : List Char} (hc : '}' ∈ c) (h : ticks ++ z = c ++ w) :
    ∃ c', c = ticks ++ c' ∧ z = c' ++ w :=
  cut_past h.symm hc (by decide)

section

variable {members : List (String × Value fl.Num)} (json : ActionText fl members) (prose : Prose)
  {front back tag blanks body blanks' : List Char} (htag : Tag tag) (hblanks : Blank blanks)
  (hblanks' : Blank blanks')

include htag hblanks

theorem not_behind_tick {t : List Char} :
    behind tag blanks body blanks' ++ back ≠ tick :: t := by
  intro h
  rw [behind, List.append_assoc, List.append_assoc] at h
  exact head_behind htag hblanks (congrArg List.head? h)

/-- A bare JSON text is in no match of the first pattern. -/
theorem bare_no_match :
    prose.text ++ json.text ≠ front ++ (ticks ++ behind tag blanks body blanks' ++ back) := by
  intro h
  obtain ⟨u, hu⟩ := json.braced
  rw [List.append_assoc] at h
  rcases opens_behind prose h with ⟨a, -, ht⟩ | ht | ht
  · rw [behind, List.append_assoc, List.append_assoc] at ht
    exact json.no_fence htag hblanks ht
  · rw [hu] at ht
    exact absurd (List.cons.inj ht).1 (by decide)
  · rw [hu] at ht
    exact absurd (List.cons.inj ht).1 (by decide)

variable {before after : List Char} (hbefore : Blank before) (hafter : Blank after)

include hafter in
/-- No match begins in the JSON text or behind it. -/
theorem no_match_within {a : List Char} : json.text ++ (after ++ ticks) ≠
    a ++ (ticks ++ (behind tag blanks body blanks' ++ back)) := by
  intro h
  have hbrace : '{' ∉ after ++ ticks := hafter.not_mem_close (by decide) (by decide)
  have hopening : '{' ∈ behind tag blanks body blanks' ++ back := by simp [behind]
  rcases List.append_eq_append_iff.mp h with ⟨c, -, hc⟩ | ⟨c, hc, hrest⟩
  · exact hbrace (hc ▸ List.mem_append_right _ (List.mem_append_right _ hopening))
  · by_cases hne : c = []
    · rw [hne, List.nil_append] at hrest
      exact hbrace (hrest ▸ List.mem_append_right _ hopening)
    · obtain ⟨c', rfl, hbehind⟩ := past_ticks (json.last_mem hc hne) hrest
      have hlast : '}' ∈ c' :=
        (List.mem_append.mp (json.last_mem hc hne)).resolve_left (by decide)
      have hcut : c' ++ (after ++ ticks) = (tag ++ (blanks ++ ['\n'])) ++
          ('{' :: (body ++ '}' :: '\n' :: (blanks' ++ ticks)) ++ back) := by
        rw [← hbehind]
        simp [behind]
      have hnot : '}' ∉ tag ++ (blanks ++ ['\n']) := by
        simp only [List.mem_append, not_or]
        refine ⟨?_, hblanks.not_mem (by decide), by decide⟩
        rcases htag with rfl | rfl <;> decide
      obtain ⟨c'', rfl, -⟩ := cut_past hcut hlast hnot
      refine json.no_fence (z := c'') (a := a) htag hblanks ?_
      rw [hc]
      simp

include hbefore hafter in
theorem match_start {a : List Char}
    (h : ticks ++ ("json".toList ++ (before ++ (json.text ++ (after ++ ticks)))) =
      a ++ (ticks ++ (behind tag blanks body blanks' ++ back))) : a = [] := by
  rw [ticks_append, ticks_append] at h
  have hj : ∀ t t' : List Char, "json".toList ++ t ≠ tick :: t' := fun t t' heq =>
    absurd (List.cons.inj heq).1 (by decide)
  cases a with
  | nil => rfl
  | cons c a =>
      obtain ⟨-, hsecond⟩ := List.cons.inj h
      cases a with
      | nil =>
          obtain ⟨-, hthird⟩ := List.cons.inj hsecond
          exact absurd (List.cons.inj hthird).2 (hj _ _)
      | cons c a =>
          obtain ⟨-, hthird⟩ := List.cons.inj hsecond
          cases a with
          | nil => exact absurd (List.cons.inj hthird).2 (hj _ _)
          | cons c a =>
              obtain ⟨-, hrest⟩ := List.cons.inj hthird
              have htick : tick ∉ "json".toList ++ before := fun hmem =>
                (List.mem_append.mp hmem).elim (by decide) (hbefore.not_mem not_space_tick)
              rw [← List.append_assoc] at hrest
              obtain ⟨a', -, hwithin⟩ := cut_at hrest htick
              exact absurd hwithin (no_match_within json htag hblanks hafter)

include hbefore hafter hblanks' in
/-- A match that begins with the fence has found the JSON text on lines of its own. -/
theorem match_rest
    (h : "json".toList ++ (before ++ (json.text ++ (after ++ ticks))) =
      behind tag blanks body blanks' ++ back) :
    before = blanks ++ ['\n'] ∧ '{' :: (body ++ ['}']) = json.text ∧ after.head? = some '\n' := by
  obtain ⟨u, hu⟩ := json.braced
  have htag : tag = "json".toList := by
    refine htag.resolve_left ?_
    rintro rfl
    cases blanks with
    | nil => exact absurd (List.cons.inj h).1 (by decide)
    | cons c blanks =>
        have hspace := hblanks c List.mem_cons_self
        rw [← (List.cons.inj h).1] at hspace
        exact absurd hspace (by decide)
  subst htag
  have hline : Blank (blanks ++ ['\n']) := fun c hc =>
    (List.mem_append.mp hc).elim (hblanks c) fun hc => by rw [List.mem_singleton.mp hc]; decide
  have hcut : before ++ '{' :: ((u ++ ['}']) ++ (after ++ ticks)) =
      (blanks ++ ['\n']) ++ '{' :: ((body ++ ['}']) ++ ('\n' :: (blanks' ++ (ticks ++ back)))) := by
    rw [hu, behind, List.append_assoc] at h
    simpa using List.append_cancel_left h
  obtain ⟨rfl, -, hbody⟩ := cut_class hcut hbefore hline (by decide) (by decide)
  refine ⟨rfl, ?_⟩
  have hends : ∀ t, after ++ ticks = '\n' :: t → after.head? = some '\n' := by
    intro t ht
    cases after with
    | nil => exact absurd (List.cons.inj ht).1 (by decide)
    | cons c after => exact congrArg some (List.cons.inj ht).1
  have hlast : ∀ {s t c : List Char}, s ++ ['}'] = t ++ c → c ≠ [] → '}' ∈ c := by
    intro s t c hc hne
    have hmem : (t ++ c).getLast? = some '}' := by rw [← hc, List.getLast?_concat]
    rw [List.getLast?_append_of_ne_nil _ hne] at hmem
    exact List.mem_of_getLast? hmem
  rcases List.append_eq_append_iff.mp hbody with ⟨c, hc, hrest⟩ | ⟨c, hc, hrest⟩
  · by_cases hne : c = []
    · rw [hne, List.append_nil] at hc
      rw [hne, List.nil_append] at hrest
      exact ⟨by rw [hu, hc], hends _ hrest⟩
    · refine absurd (hrest ▸ List.mem_append_left _ (hlast hc hne)) ?_
      exact hafter.not_mem_close (by decide) (by decide)
  · by_cases hne : c = []
    · rw [hne, List.append_nil] at hc
      rw [hne, List.nil_append] at hrest
      exact ⟨by rw [hu, hc], hends _ hrest.symm⟩
    · have hcut : c ++ (after ++ ticks) = ('\n' :: (blanks' ++ ticks)) ++ back := by
        rw [← hrest]
        simp
      have hnot : '}' ∉ '\n' :: (blanks' ++ ticks) := by
        rw [List.mem_cons, not_or]
        exact ⟨by decide, hblanks'.not_mem_close (by decide) (by decide)⟩
      obtain ⟨c', rfl, -⟩ := cut_past hcut (hlast hc hne) hnot
      refine absurd ?_ (json.no_closing (a := '{' :: (body ++ ['}'])) (z := c') hblanks')
      rw [hu, hc]
      simp

include hbefore hafter hblanks' in
theorem fenced_match (h : prose.text ++ (ticks ++ ("json".toList ++ (before ++ (json.text ++
      (after ++ ticks))))) = front ++ (ticks ++ behind tag blanks body blanks' ++ back)) :
    before = blanks ++ ['\n'] ∧ '{' :: (body ++ ['}']) = json.text ∧ after.head? = some '\n' := by
  rw [List.append_assoc] at h
  rcases opens_behind prose h with ⟨a, -, ht⟩ | ht | ht
  · obtain rfl := match_start json htag hblanks hbefore hafter ht
    exact match_rest json htag hblanks hblanks' hbefore hafter (List.append_cancel_left ht)
  · rw [ticks_append] at ht
    exact absurd (List.cons.inj (List.cons.inj ht).2).2.symm (not_behind_tick htag hblanks)
  · rw [ticks_append] at ht
    exact absurd (List.cons.inj ht).2.symm (not_behind_tick htag hblanks)

end

/-! The second pattern. -/

theorem matches_flat {u : List Char} {g : Option (List Char)} (h : Matches flat u g) :
    ∃ x, u = '{' :: x ∧ '{' ∉ x := by
  have hrun : ∀ {s g}, Matches (.many true notBrace) s g → '{' ∉ s := by
    intro s g hs
    cases hs with
    | many hall => exact fun hmem => absurd (hall _ hmem) (by decide)
  cases h with
  | seq hopen h =>
  cases hopen
  cases h with
  | @seq _ _ x _ _ _ hx h =>
  cases h with
  | seq hword h =>
  cases hword
  cases h with
  | @seq _ _ y _ _ _ hy hclose =>
  cases hclose
  refine ⟨x ++ ("\"action\"".toList ++ (y ++ ['}'])), rfl, ?_⟩
  simp only [List.mem_append, not_or]
  exact ⟨hrun hx, by decide, hrun hy, by decide⟩

/-- The second pattern finds no action that is an object. -/
theorem flat_not_obj (host : Host fl) {content : List Char} {m : Way}
    (hm : search flat content = some m) (members : List (String × Value fl.Num)) :
    actionIn host m.text ≠ some (.obj members) := by
  intro haction
  obtain ⟨-, -, hmatch⟩ := search_some hm
  obtain ⟨x, htext, hx⟩ := matches_flat hmatch
  rw [htext, actionIn] at haction
  split at haction
  · rename_i data hloads
    simp only at haction
    split at haction
    · rename_i htruthy
      cases hlookup : data.lookup "action" with
      | none =>
          rw [hlookup] at htruthy
          cases htruthy
      | some v =>
          rw [hlookup] at haction
          obtain ⟨front, back, hdata, -⟩ := List.lookup_eq_some_iff.mp hlookup
          refine loads_flat hx hloads ("action", v) ?_ members (Option.some.inj haction)
          rw [hdata]
          exact List.mem_append_right _ List.mem_cons_self
    · cases haction
  · cases haction

section

variable (host : Host fl) {members : List (String × Value fl.Num)} (json : ActionText fl members)
  (prose : Prose)

theorem actionIn_json : actionIn host json.text = some (.obj members) := by
  rw [actionIn, json.reads]
  have htruthy : host.truthy (.obj members) = true := by
    rw [Host.truthy, Bool.not_eq_true', List.isEmpty_eq_false_iff]
    exact json.nonempty
  simp [List.lookup_cons_self, htruthy]

theorem findAction_of_no_fence {content : List Char} (h : search fence content = none) :
    findAction host content ≠ some (.obj members) := by
  rw [findAction, h]
  intro hfind
  obtain ⟨m, hm, haction⟩ := Option.bind_eq_some_iff.mp hfind
  exact flat_not_obj host hm members haction

/-- A fence in the response is the one of the layout, and has the JSON text in it. -/
theorem lined_of_match {before after front u back : List Char} {g : Option (List Char)}
    (hbefore : Blank before) (hafter : Blank after)
    (h : prose.text ++ (Layout.fenced before after hbefore hafter).lay json.text =
      front ++ (u ++ back)) (hmatch : Matches fence u g) :
    (Layout.fenced before after hbefore hafter).Lined ∧ g = some json.text := by
  obtain ⟨tag, blanks, body, blanks', htag, hblanks, hblanks', rfl, rfl⟩ := matches_fence.mp hmatch
  obtain ⟨hline, hbody, hhead⟩ := fenced_match json prose htag hblanks hblanks' hbefore hafter h
  exact ⟨⟨by rw [hline, List.getLast?_concat], hhead⟩, congrArg some hbody⟩

theorem extracts_of_lined {before after : List Char} (hbefore : Blank before) (hafter : Blank after)
    (hlined : (Layout.fenced before after hbefore hafter).Lined) :
    Extracts host (prose.text ++ (Layout.fenced before after hbefore hafter).lay json.text)
      (.obj members) := by
  rw [extracts_iff_find]
  obtain ⟨hline, hhead⟩ := hlined
  obtain ⟨blanks, rfl⟩ := List.getLast?_eq_some_iff.mp hline
  obtain ⟨blanks', rfl⟩ := List.head?_eq_some_iff.mp hhead
  obtain ⟨u, hu⟩ := json.braced
  have hmatch : Matches fence (ticks ++ behind "json".toList blanks u blanks') (some json.text) :=
    matches_fence.mpr ⟨_, blanks, u, blanks', .inr rfl,
      fun c hc => hbefore c (List.mem_append_left _ hc),
      fun c hc => hafter c (List.mem_cons_of_mem _ hc), rfl, by rw [hu]⟩
  have hcontent : prose.text ++ (Layout.fenced _ _ hbefore hafter).lay json.text =
      prose.text ++ (ticks ++ behind "json".toList blanks u blanks' ++ []) := by
    rw [Layout.lay, hu, behind]
    simp
  rw [hcontent]
  obtain ⟨m, hm, hcaught⟩ := search_caught hmatch fun front u back g h hg =>
    (lined_of_match json prose hbefore hafter (hcontent.trans h) hg).2
  rw [findAction, hm, Option.bind_some, hcaught, Option.bind_some, actionIn_json host json]
  rfl

/-- _parse_action returns the action just where the JSON text has whole lines
of a fence to itself. -/
theorem extracts_iff (layout : Layout) :
    Extracts host (prose.text ++ layout.lay json.text) (.obj members) ↔ layout.Lined := by
  cases layout with
  | bare =>
      rw [extracts_iff_find]
      refine iff_of_false (findAction_of_no_fence host ?_) id
      refine search_none fun front u back g h hmatch => ?_
      obtain ⟨tag, blanks, body, blanks', htag, hblanks, -, rfl, -⟩ := matches_fence.mp hmatch
      exact bare_no_match json prose htag hblanks h
  | fenced before after hbefore hafter =>
      constructor
      · rw [extracts_iff_find]
        intro hfind
        by_contra hlined
        refine findAction_of_no_fence host ?_ hfind
        exact search_none fun front u back g h hmatch =>
          hlined (lined_of_match json prose hbefore hafter h hmatch).1
      · exact extracts_of_lined host json prose hbefore hafter

end

/-- The text that json.dumps makes of the action. -/
def ActionText.ofDumps (members : List (String × Value fl.Num))
    (h : Ok fl (.obj [("action", .obj members)])) (hne : members ≠ []) : ActionText fl members where
  text := dumps fl (.obj [("action", .obj members)])
  reads := loads_dumps fl h
  braced := by
    obtain ⟨u, hu⟩ := listed_last '}' (dumpsMembers fl [("action", Value.obj members)])
    exact ⟨u, by rw [dumps, hu]⟩
  nonempty := hne

def completed : ActionText .single [("type", .str "complete"), ("output", .obj [])] :=
  .ofDumps _ (by simp [Ok, OkMembers]) (by simp)

/-- A bare action is taken for a completed goal. -/
theorem not_extracts :
    ¬ ∀ (fl : Floats) (host : Host fl) (members : List (String × Value fl.Num))
      (json : ActionText fl members) (prose : Prose) (layout : Layout),
      Extracts host (prose.text ++ layout.lay json.text) (.obj members) := by
  intro h
  exact (extracts_iff plainHost completed ⟨[], by decide, by decide, by decide⟩ .bare).mp
    (h .single plainHost _ completed _ .bare)

end Prodinamik.Agents
