import Prodinamik.Lib.Text

namespace Prodinamik.Runs

open Lib.Text

structure RunMeta where
  slug : String
  profile : String
  title : String
  createdAt : String := ""
  updatedAt : String := ""
  status : String := "active"
  state : String := ""
  version : Int := 0
  iterationCount : Int := 0
  deriving DecidableEq, Repr

namespace RunMeta

def line (key value : String) : List Char := key.toList ++ ':' :: ' ' :: (value.toList ++ ['\n'])

/-- The lines of content-object.md that come before the state. -/
def head (m : RunMeta) : List Char :=
  "---\n".toList ++ line "slug" m.slug ++ line "profile" m.profile ++ line "title" m.title ++
    line "created_at" m.createdAt ++ line "updated_at" m.updatedAt

/-- The text that _write_meta writes. -/
def write (m : RunMeta) : String :=
  String.ofList (m.head ++ line "status" m.status ++ line "state" m.state ++
    line "version" (toString m.version) ++ line "iteration_count" (toString m.iterationCount) ++
    "---\n".toList)

/-- A line of the frontmatter as a key and a value. -/
def parseLine (l : List Char) : Option (List Char × List Char) :=
  let l := strip l
  if ':' ∈ l ∧ ¬ "---".toList.isPrefixOf l then
    some (strip (partition ':' l).1, strip (partition ':' l).2)
  else none

def fields (text : List Char) : List (List Char × List Char) :=
  ((universalNewlines text).splitOn '\n').filterMap parseLine

/-- The dict that the lines build up: a later line overrides an earlier one. -/
def get (fields : List (List Char × List Char)) (key : String) : Option String :=
  (fields.reverse.lookup key.toList).map String.ofList

def getInt (fields : List (List Char × List Char)) (key : String) : Option Int :=
  match get fields key with
  | none => some 0
  | some value => parseInt value.toList

/-- _read_meta of a file in the given directory; none is a ValueError. -/
def read (dirName content : String) : Option RunMeta :=
  let d := fields content.toList
  let slug := if (get d "slug").getD "" = "" then dirName else (get d "slug").getD ""
  match getInt d "version", getInt d "iteration_count" with
  | some version, some iterationCount =>
      some {
        slug := slug
        profile := (get d "profile").getD "unknown"
        title := (get d "title").getD slug
        createdAt := (get d "created_at").getD ""
        updatedAt := (get d "updated_at").getD ""
        status := (get d "status").getD "active"
        state := (get d "state").getD ""
        version := version
        iterationCount := iterationCount }
  | _, _ => none

end RunMeta

/-- A value that a line of the frontmatter gives back as it is. -/
def Plain (value : String) : Prop :=
  '\n' ∉ value.toList ∧ '\r' ∉ value.toList ∧ strip value.toList = value.toList

instance (value : String) : Decidable (Plain value) := inferInstanceAs (Decidable (_ ∧ _ ∧ _))

/-- A key of the frontmatter: nothing in it has a meaning of its own. -/
structure IsKey (key : String) : Prop where
  noColon : ':' ∉ key.toList
  noSpace : ∀ c ∈ key.toList, isSpace c = false
  noDash : key.toList.head? ≠ some '-'
  nonempty : key.toList ≠ []

instance (key : String) : Decidable (IsKey key) :=
  decidable_of_iff (':' ∉ key.toList ∧ (key.toList.all fun c => isSpace c = false) = true ∧
    key.toList.head? ≠ some '-' ∧ key.toList ≠ [])
    ⟨fun h => ⟨h.1, by simpa using h.2.1, h.2.2.1, h.2.2.2⟩,
      fun h => ⟨h.1, by simpa using h.2, h.3, h.4⟩⟩

namespace RunMeta

theorem write_toList (m : RunMeta) : m.write.toList =
    "---\n".toList ++ line "slug" m.slug ++ line "profile" m.profile ++ line "title" m.title ++
      line "created_at" m.createdAt ++ line "updated_at" m.updatedAt ++ line "status" m.status ++
      line "state" m.state ++ line "version" (toString m.version) ++
      line "iteration_count" (toString m.iterationCount) ++ "---\n".toList := by
  delta write head
  exact String.toList_ofList

theorem parseLine_line {key : String} (h : IsKey key) (value : List Char) :
    parseLine (key.toList ++ ':' :: ' ' :: value) = some (key.toList, strip value) := by
  obtain ⟨c, rest, hkey⟩ := List.exists_cons_of_ne_nil h.nonempty
  have hspace : isSpace c = false := h.noSpace c (by rw [hkey]; exact List.mem_cons_self)
  have hdash : c ≠ '-' := by
    rintro rfl
    exact h.noDash (by rw [hkey]; rfl)
  have hstrip : strip (key.toList ++ ':' :: ' ' :: value) =
      key.toList ++ ':' :: (' ' :: value).rdropWhile isSpace := by
    rw [strip, rdropWhile_append_cons (by decide), hkey, List.cons_append,
      List.dropWhile_cons_of_neg (by simp [hspace])]
  rw [parseLine, hstrip, if_pos]
  · rw [partition_append h.noColon, strip_of_no_space h.noSpace, strip_rdropWhile,
      strip_cons_space (by decide)]
  · refine ⟨by simp, ?_⟩
    rw [hkey]
    simp [hdash.symm]

/-- One line at the beginning of the rest of the text. -/
theorem fields_line {key value : String} (h : IsKey key) (hn : '\n' ∉ value.toList)
    (hr : '\r' ∉ value.toList) (text : List Char) :
    fields (line key value ++ text) = (key.toList, strip value.toList) :: fields text := by
  have hkey : '\n' ∉ key.toList := fun hmem => absurd (h.noSpace _ hmem) (by decide)
  have hkey' : '\r' ∉ key.toList := fun hmem => absurd (h.noSpace _ hmem) (by decide)
  have hbody : line key value ++ text =
      (key.toList ++ ':' :: ' ' :: value.toList) ++ '\n' :: text := by simp [line]
  have hcr : '\r' ∉ key.toList ++ ':' :: ' ' :: value.toList := by simp [hkey', hr]
  have hlf : '\n' ∉ key.toList ++ ':' :: ' ' :: value.toList := by simp [hkey, hn]
  rw [fields, hbody, universalNewlines_append hcr, universalNewlines_cons (by decide),
    List.splitOn_append_cons_self_of_not_mem hlf, List.filterMap_cons, parseLine_line h]
  rfl

/-- Whatever is written up to the end of a line, the lines after it are read
as they are. -/
theorem fields_append (s text : List Char) :
    fields (s ++ '\n' :: text) = fields (s ++ ['\n']) ++ fields text := by
  obtain ⟨s', hs⟩ := universalNewlines_line s
  have hline : ∀ t, fields (s ++ '\n' :: t) = (s'.splitOn '\n').filterMap parseLine ++ fields t := by
    intro t
    rw [fields, hs, List.splitOn_append_cons_self, List.filterMap_append]
    rfl
  rw [hline text, hline []]
  exact congrArg (· ++ fields text) (List.append_nil _).symm

theorem toString_toList (n : Nat) : (toString (n : Int)).toList = Nat.toDigits 10 n :=
  Nat.toList_repr

/-- A number on a line of its own. -/
theorem fields_number {key : String} (h : IsKey key) (n : Nat) (text : List Char) :
    fields (line key (toString (n : Int)) ++ text) =
      (key.toList, Nat.toDigits 10 n) :: fields text := by
  have hdigit : ∀ c ∈ Nat.toDigits 10 n, isSpace c = false := by
    intro c hc
    obtain ⟨k, hk, rfl⟩ := mem_toDigits hc
    exact digitChar_not_space hk
  rw [fields_line h, toString_toList, strip_of_no_space hdigit]
  · rw [toString_toList]
    exact fun hmem => absurd (hdigit _ hmem) (by decide)
  · rw [toString_toList]
    exact fun hmem => absurd (hdigit _ hmem) (by decide)

def numbers (version iterationCount : Nat) : List (List Char × List Char) :=
  [("version".toList, Nat.toDigits 10 version),
    ("iteration_count".toList, Nat.toDigits 10 iterationCount)]

theorem fields_numbers (version iterationCount : Nat) :
    fields (line "version" (toString (version : Int)) ++
      (line "iteration_count" (toString (iterationCount : Int)) ++ "---\n".toList)) =
        numbers version iterationCount := by
  rw [fields_number (by decide), fields_number (by decide)]
  rfl

theorem get_append {before rest : List (List Char × List Char)} {key : String} {value : String}
    (h : get rest key = some value) : get (before ++ rest) key = some value := by
  rw [get, Option.map_eq_some_iff] at h
  obtain ⟨v, hv, rfl⟩ := h
  rw [get, List.reverse_append, List.lookup_append, hv]
  rfl

theorem getInt_append {before rest : List (List Char × List Char)} {key : String} {n : Nat}
    (h : get rest key = some (String.ofList (Nat.toDigits 10 n))) :
    getInt (before ++ rest) key = some (n : Int) := by
  rw [getInt, get_append h]
  simp only
  rw [String.toList_ofList, parseInt_toDigits]

theorem get_version (version iterationCount : Nat) : get (numbers version iterationCount) "version" =
    some (String.ofList (Nat.toDigits 10 version)) := rfl

theorem get_iterationCount (version iterationCount : Nat) :
    get (numbers version iterationCount) "iteration_count" =
      some (String.ofList (Nat.toDigits 10 iterationCount)) := rfl

/-- The numbers come last, so nothing that is written into the other fields
changes them. -/
theorem read_write_numbers {m : RunMeta} {version iterationCount : Nat}
    (hversion : m.version = version) (hiteration : m.iterationCount = iterationCount)
    (dirName : String) : ∃ m', read dirName m.write = some m' ∧ m'.version = version ∧
      m'.iterationCount = iterationCount := by
  have hfields := fields_append
    (m.head ++ line "status" m.status ++ "state".toList ++ ':' :: ' ' :: m.state.toList)
    (line "version" (toString m.version) ++
      (line "iteration_count" (toString m.iterationCount) ++ "---\n".toList))
  rw [hversion, hiteration, fields_numbers] at hfields
  have htext : m.write.toList = m.head ++ line "status" m.status ++ "state".toList ++
      ':' :: ' ' :: m.state.toList ++ '\n' :: (line "version" (toString m.version) ++
        (line "iteration_count" (toString m.iterationCount) ++ "---\n".toList)) := by
    rw [write, String.toList_ofList]
    simp [line]
  rw [read, htext, hversion, hiteration, hfields, getInt_append (get_version _ _),
    getInt_append (get_iterationCount _ _)]
  exact ⟨_, rfl, rfl, rfl⟩

theorem plain_fields {key value : String} (h : IsKey key) (hvalue : Plain value)
    (text : List Char) : fields (line key value ++ text) =
      (key.toList, value.toList) :: fields text := by
  rw [fields_line h hvalue.1 hvalue.2.1, hvalue.2.2]

/-- With a plain status and state these are read back too. -/
theorem read_write {m : RunMeta} {version iterationCount : Nat}
    (hversion : m.version = version) (hiteration : m.iterationCount = iterationCount)
    (hstatus : Plain m.status) (hstate : Plain m.state) (dirName : String) :
    ∃ m', read dirName m.write = some m' ∧ m'.status = m.status ∧ m'.state = m.state ∧
      m'.version = version ∧ m'.iterationCount = iterationCount := by
  have hfields := fields_append
    ("---\n".toList ++ line "slug" m.slug ++ line "profile" m.profile ++ line "title" m.title ++
      line "created_at" m.createdAt ++ "updated_at".toList ++ ':' :: ' ' :: m.updatedAt.toList)
    (line "status" m.status ++ (line "state" m.state ++ (line "version" (toString m.version) ++
      (line "iteration_count" (toString m.iterationCount) ++ "---\n".toList))))
  rw [hversion, hiteration, plain_fields (by decide) hstatus, plain_fields (by decide) hstate,
    fields_numbers] at hfields
  have htext : m.write.toList =
      "---\n".toList ++ line "slug" m.slug ++ line "profile" m.profile ++ line "title" m.title ++
        line "created_at" m.createdAt ++ "updated_at".toList ++ ':' :: ' ' :: m.updatedAt.toList ++
        '\n' :: (line "status" m.status ++ (line "state" m.state ++
          (line "version" (toString m.version) ++
            (line "iteration_count" (toString m.iterationCount) ++ "---\n".toList)))) := by
    rw [write_toList]
    simp [line]
  have hget : ∀ {key value : String}, get (("status".toList, m.status.toList) ::
      ("state".toList, m.state.toList) :: numbers version iterationCount) key = some value →
        get (fields m.write.toList) key = some value := by
    intro key value h
    rw [htext, hversion, hiteration, hfields]
    exact get_append h
  have hgetInt : ∀ {key : String} {n : Nat}, get (("status".toList, m.status.toList) ::
      ("state".toList, m.state.toList) :: numbers version iterationCount) key =
        some (String.ofList (Nat.toDigits 10 n)) →
          getInt (fields m.write.toList) key = some (n : Int) := by
    intro key n h
    rw [htext, hversion, hiteration, hfields]
    exact getInt_append h
  have hv : getInt (fields m.write.toList) "version" = some (version : Int) := hgetInt rfl
  have hi : getInt (fields m.write.toList) "iteration_count" = some (iterationCount : Int) :=
    hgetInt rfl
  have hs : get (fields m.write.toList) "status" = some (String.ofList m.status.toList) := hget rfl
  have ht : get (fields m.write.toList) "state" = some (String.ofList m.state.toList) := hget rfl
  rw [String.ofList_toList] at hs ht
  rw [read, hv, hi]
  refine ⟨_, rfl, ?_, ?_, rfl, rfl⟩
  · simp only [hs, Option.getD_some]
  · simp only [ht, Option.getD_some]

/-- What is read from a line is plain. -/
theorem plain_of_mem_fields {text : List Char} {entry : List Char × List Char}
    (h : entry ∈ fields text) : Plain (String.ofList entry.2) := by
  obtain ⟨l, hl, hparse⟩ := List.mem_filterMap.mp h
  obtain ⟨hnewline, hsub⟩ := mem_splitOn hl
  have hreturn : '\r' ∉ l := fun hc => not_mem_universalNewlines text (hsub _ hc)
  rw [parseLine] at hparse
  split at hparse
  · cases hparse
    have hvalue : ∀ c ∈ strip (partition ':' (strip l)).2, c ∈ l := by
      intro c hc
      have hpart : c ∈ strip l := mem_of_mem_partition (mem_of_mem_strip hc)
      exact mem_of_mem_strip hpart
    rw [Plain, String.toList_ofList]
    exact ⟨fun hc => hnewline (hvalue _ hc), fun hc => hreturn (hvalue _ hc), strip_strip _⟩
  · cases hparse

theorem plain_of_get {text : List Char} {key value : String}
    (h : get (fields text) key = some value) : Plain value := by
  obtain ⟨v, hv, rfl⟩ := Option.map_eq_some_iff.mp h
  obtain ⟨before, rest, hsplit⟩ := List.lookup_eq_some_iff.mp hv
  have hmem : (key.toList, v) ∈ fields text := by
    rw [← List.mem_reverse, hsplit.1]
    exact List.mem_append_right _ List.mem_cons_self
  exact @plain_of_mem_fields text (key.toList, v) hmem

/-- A line gives its key, whatever its value is. -/
theorem fields_line_head {key : String} (h : IsKey key) (value : String) (text : List Char) :
    ∃ v rest, fields (line key value ++ text) = (key.toList, v) :: rest := by
  have hbreak : ((value.toList ++ '\n' :: text).find? fun c => c = '\n' ∨ c = '\r').isSome := by
    rw [List.find?_isSome]
    exact ⟨'\n', List.mem_append_right _ List.mem_cons_self, by decide⟩
  obtain ⟨c, hfind⟩ := Option.isSome_iff_exists.mp hbreak
  obtain ⟨hc, first, rest, hsplit, hfirst⟩ := List.find?_eq_some_iff_append.mp hfind
  obtain ⟨rest', hrest⟩ : ∃ rest', universalNewlines (c :: rest) = '\n' :: rest' := by
    obtain rfl | rfl := of_decide_eq_true hc
    · exact ⟨_, universalNewlines_cons (by decide) rest⟩
    · cases rest with
      | nil => exact ⟨[], rfl⟩
      | cons d rest =>
          by_cases hd : d = '\n'
          · rw [hd, universalNewlines]
            exact ⟨_, rfl⟩
          · rw [universalNewlines]
            · exact ⟨_, rfl⟩
            · rintro _ ⟨rfl⟩
              exact hd rfl
  have hbody : ∀ x ∈ key.toList ++ ':' :: ' ' :: first, x ≠ '\n' ∧ x ≠ '\r' := by
    intro x hx
    obtain hx | hx := List.mem_append.mp hx
    · exact ⟨fun heq => absurd (h.noSpace x hx) (by rw [heq]; decide),
        fun heq => absurd (h.noSpace x hx) (by rw [heq]; decide)⟩
    · obtain rfl | hx := List.mem_cons.mp hx
      · decide
      · obtain rfl | hx := List.mem_cons.mp hx
        · decide
        · simpa using hfirst x hx
  have htext : line key value ++ text = (key.toList ++ ':' :: ' ' :: first) ++ c :: rest := by
    have hline : line key value ++ text = key.toList ++ ':' :: ' ' :: (value.toList ++ '\n' :: text) := by
      simp [line]
    rw [hline, hsplit]
    simp
  refine ⟨strip first, (rest'.splitOn '\n').filterMap parseLine, ?_⟩
  rw [fields, htext, universalNewlines_append fun hmem => (hbody _ hmem).2 rfl, hrest,
    List.splitOn_append_cons_self_of_not_mem fun hmem => (hbody _ hmem).1 rfl,
    List.filterMap_cons, parseLine_line h]

/-- The fields of what is read that only a line of the file can set. -/
theorem fields_of_read {dirName content : String} {m : RunMeta}
    (h : read dirName content = some m) :
    m.profile = (get (fields content.toList) "profile").getD "unknown" ∧
      m.title = (get (fields content.toList) "title").getD m.slug ∧
      m.createdAt = (get (fields content.toList) "created_at").getD "" := by
  rw [read] at h
  split at h
  · cases h
    exact ⟨rfl, rfl, rfl⟩
  · cases h

/-- The profile that is read back from the lines of a profile and a title. -/
def profileRead (profile title : String) : String :=
  (get (fields (line "profile" profile ++ line "title" title)) "profile").getD "unknown"

theorem profileRead_of_plain {profile title : String} (hprofile : Plain profile)
    (htitle : Plain title) : profileRead profile title = profile := by
  have hfields := plain_fields (show IsKey "title" by decide) htitle []
  rw [List.append_nil] at hfields
  have hget : get (("profile".toList, profile.toList) :: ("title".toList, title.toList) ::
      fields []) "profile" = some (String.ofList profile.toList) := rfl
  rw [profileRead, plain_fields (by decide) hprofile, hfields, hget, String.ofList_toList]
  rfl

theorem get_append_eq {before rest : List (List Char × List Char)} {key : String}
    (h : ∀ entry ∈ rest, entry.1 ≠ key.toList) : get (before ++ rest) key = get before key := by
  have hnone : rest.reverse.lookup key.toList = none := by
    rw [List.lookup_eq_none_iff]
    intro entry hentry
    simpa using Ne.symm (h entry (List.mem_reverse.mp hentry))
  rw [get, get, List.reverse_append, List.lookup_append, hnone, Option.none_or]

theorem get_isSome_of_mem {fields : List (List Char × List Char)} {key : String} {v : List Char}
    (h : (key.toList, v) ∈ fields) : (get fields key).isSome := by
  rw [get, Option.isSome_map, Option.isSome_iff_ne_none, Ne, List.lookup_eq_none_iff]
  intro hnone
  have hne := hnone _ (List.mem_reverse.mpr h)
  simp at hne

/-- With the lines that follow them plain the lines of the profile and of the
title decide what is read; what comes before them does not matter. -/
theorem read_profile {m m' : RunMeta} {version iterationCount : Nat}
    (hversion : m.version = version) (hiteration : m.iterationCount = iterationCount)
    (hcreated : Plain m.createdAt) (hupdated : Plain m.updatedAt) (hstatus : Plain m.status)
    (hstate : Plain m.state) {dirName : String} (h : read dirName m.write = some m') :
    m'.profile = profileRead m.profile m.title := by
  let lines := line "profile" m.profile ++ line "title" m.title
  let rest := line "created_at" m.createdAt ++ (line "updated_at" m.updatedAt ++
    (line "status" m.status ++ (line "state" m.state ++
      (line "version" (toString (version : Int)) ++
        (line "iteration_count" (toString (iterationCount : Int)) ++ "---\n".toList)))))
  have hrest : ∀ entry ∈ fields rest, entry.1 ≠ "profile".toList := by
    rw [plain_fields (by decide) hcreated, plain_fields (by decide) hupdated,
      plain_fields (by decide) hstatus, plain_fields (by decide) hstate, fields_numbers]
    simp [numbers]
  have hlines : lines = line "profile" m.profile ++ "title".toList ++ ':' :: ' ' :: m.title.toList ++
      ['\n'] := by simp [lines, line]
  have htext : m.write.toList =
      "---\n".toList ++ "slug".toList ++ ':' :: ' ' :: m.slug.toList ++ '\n' :: (lines ++ rest) := by
    rw [write_toList, hversion, hiteration]
    simp [line, lines, rest]
  have hsplit : fields (lines ++ rest) = fields lines ++ fields rest := by
    rw [hlines, List.append_assoc, List.singleton_append]
    exact fields_append _ _
  obtain ⟨v, tail, hhead⟩ := fields_line_head (show IsKey "profile" by decide) m.profile
    (line "title" m.title)
  obtain ⟨name, hname⟩ : ∃ name, get (fields lines) "profile" = some name := by
    rw [← Option.isSome_iff_exists]
    refine get_isSome_of_mem (v := v) ?_
    rw [hhead]
    exact List.mem_cons_self
  have hget : get (fields m.write.toList) "profile" = some name := by
    rw [htext, fields_append, hsplit, ← List.append_assoc, get_append_eq hrest]
    exact get_append hname
  rw [(fields_of_read h).1, hget, profileRead, hname]

/-- A value that is read or its default. -/
theorem plain_getD (text : List Char) (key : String) {default : String} (h : Plain default) :
    Plain ((get (fields text) key).getD default) := by
  cases hget : get (fields text) key with
  | none => exact h
  | some value => exact plain_of_get hget

/-- What is read from a file that was written is plain again, and so stays as it
is when it is written once more. -/
theorem plain_of_read {m m' : RunMeta} {dirName : String} (h : read dirName m.write = some m') :
    Plain m'.profile ∧ Plain m'.title ∧ Plain m'.createdAt := by
  have htitle : (get (fields m.write.toList) "title").isSome := by
    have hfields := fields_append ("---\n".toList ++ line "slug" m.slug ++ "profile".toList ++
        ':' :: ' ' :: m.profile.toList)
      (line "title" m.title ++ (line "created_at" m.createdAt ++ line "updated_at" m.updatedAt ++
        line "status" m.status ++ line "state" m.state ++ line "version" (toString m.version) ++
          line "iteration_count" (toString m.iterationCount) ++ "---\n".toList))
    have htext : m.write.toList = "---\n".toList ++ line "slug" m.slug ++ "profile".toList ++
        ':' :: ' ' :: m.profile.toList ++ '\n' :: (line "title" m.title ++
          (line "created_at" m.createdAt ++ line "updated_at" m.updatedAt ++
            line "status" m.status ++ line "state" m.state ++ line "version" (toString m.version) ++
              line "iteration_count" (toString m.iterationCount) ++ "---\n".toList)) := by
      rw [write_toList]
      simp [line]
    obtain ⟨v, rest, hhead⟩ := fields_line_head (show IsKey "title" by decide) m.title
      (line "created_at" m.createdAt ++ line "updated_at" m.updatedAt ++
        line "status" m.status ++ line "state" m.state ++ line "version" (toString m.version) ++
          line "iteration_count" (toString m.iterationCount) ++ "---\n".toList)
    rw [htext, hfields, hhead]
    exact get_isSome_of_mem (List.mem_append_right _ List.mem_cons_self)
  obtain ⟨hprofile, htitle', hcreated⟩ := fields_of_read h
  obtain ⟨title, hsome⟩ := Option.isSome_iff_exists.mp htitle
  rw [hsome, Option.getD_some] at htitle'
  rw [hprofile, htitle', hcreated]
  exact ⟨plain_getD _ "profile" (by decide), plain_of_get hsome,
    plain_getD _ "created_at" (by decide)⟩

end RunMeta

end Prodinamik.Runs
