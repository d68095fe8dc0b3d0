import Prodinamik.Runs.Archive
import Prodinamik.Runs.Paths

namespace Prodinamik.Runs

open Machine Lib.Text RunMeta

/-- The slug that is read back from its line; the directory stands in for an empty one. -/
def slugRead (dirName slug : String) : String :=
  if (get (fields (line "slug" slug)) "slug").getD "" = "" then dirName
  else (get (fields (line "slug" slug)) "slug").getD ""

namespace RunMeta

/-- The lines after the slug. -/
def body (m : RunMeta) : List Char :=
  line "profile" m.profile ++ (line "title" m.title ++ (line "created_at" m.createdAt ++
    (line "updated_at" m.updatedAt ++ (line "status" m.status ++ (line "state" m.state ++
      (line "version" (toString m.version) ++
        (line "iteration_count" (toString m.iterationCount) ++ "---\n".toList)))))))

theorem fields_write (m : RunMeta) :
    fields m.write.toList = fields (line "slug" m.slug) ++ fields m.body := by
  have htext : m.write.toList =
      "---".toList ++ '\n' :: (("slug".toList ++ ':' :: ' ' :: m.slug.toList) ++ '\n' :: m.body) := by
    rw [write_toList, body]
    simp [line]
  have hline : "slug".toList ++ ':' :: ' ' :: m.slug.toList ++ ['\n'] = line "slug" m.slug := by
    simp [line]
  have hdashes : fields ("---".toList ++ ['\n']) = [] := by decide +kernel
  rw [htext, fields_append, hdashes, List.nil_append, fields_append, hline]

/-- The values whose lines give them back. -/
structure PlainLines (m : RunMeta) : Prop where
  profile : Plain m.profile
  title : Plain m.title
  createdAt : Plain m.createdAt
  updatedAt : Plain m.updatedAt
  status : Plain m.status
  state : Plain m.state

theorem fields_body {m : RunMeta} {version iterationCount : Nat} (h : m.PlainLines)
    (hversion : m.version = version) (hiteration : m.iterationCount = iterationCount) :
    fields m.body = ("profile".toList, m.profile.toList) :: ("title".toList, m.title.toList) ::
      ("created_at".toList, m.createdAt.toList) :: ("updated_at".toList, m.updatedAt.toList) ::
      ("status".toList, m.status.toList) :: ("state".toList, m.state.toList) ::
      numbers version iterationCount := by
  rw [body, plain_fields (by decide) h.profile, plain_fields (by decide) h.title,
    plain_fields (by decide) h.createdAt, plain_fields (by decide) h.updatedAt,
    plain_fields (by decide) h.status, plain_fields (by decide) h.state, hversion, hiteration,
    fields_numbers]

/-- With plain lines only the slug can be read back as another one. -/
theorem read_write_slug {m : RunMeta} (h : m.PlainLines) (hcounted : Counted m)
    (dirName : String) :
    read dirName m.write = some { m with slug := slugRead dirName m.slug } := by
  obtain ⟨version, hversion⟩ := hcounted.version
  obtain ⟨iterationCount, hiteration⟩ := hcounted.iterationCount
  have hfields := fields_write m
  rw [fields_body h hversion hiteration] at hfields
  have hget : ∀ {key value : String}, get (("profile".toList, m.profile.toList) ::
      ("title".toList, m.title.toList) :: ("created_at".toList, m.createdAt.toList) ::
      ("updated_at".toList, m.updatedAt.toList) :: ("status".toList, m.status.toList) ::
      ("state".toList, m.state.toList) :: numbers version iterationCount) key =
        some (String.ofList value.toList) → get (fields m.write.toList) key = some value := by
    intro key value hvalue
    rw [hfields, ← String.ofList_toList (s := value)]
    exact get_append hvalue
  have hslug : get (fields m.write.toList) "slug" = get (fields (line "slug" m.slug)) "slug" := by
    rw [hfields]
    exact get_append_eq (by simp [numbers])
  have hprofile : get (fields m.write.toList) "profile" = some m.profile := hget rfl
  have htitle : get (fields m.write.toList) "title" = some m.title := hget rfl
  have hcreated : get (fields m.write.toList) "created_at" = some m.createdAt := hget rfl
  have hupdated : get (fields m.write.toList) "updated_at" = some m.updatedAt := hget rfl
  have hstatus : get (fields m.write.toList) "status" = some m.status := hget rfl
  have hstate : get (fields m.write.toList) "state" = some m.state := hget rfl
  have hv : getInt (fields m.write.toList) "version" = some m.version := by
    rw [hversion, hfields]
    exact getInt_append rfl
  have hi : getInt (fields m.write.toList) "iteration_count" = some m.iterationCount := by
    rw [hiteration, hfields]
    exact getInt_append rfl
  rw [read]
  simp only [hv, hi, hslug, hprofile, htitle, hcreated, hupdated, hstatus, hstate,
    Option.getD_some]
  rfl

theorem plain_state_of_read {m : RunMeta} {dirName content : String}
    (h : read dirName content = some m) : Plain m.state ∧ Plain m.status ∧
      (m.slug = dirName ∨ Plain m.slug ∧ m.slug ≠ "") := by
  rw [read] at h
  split at h
  · cases h
    refine ⟨plain_getD _ "state" (by decide), plain_getD _ "status" (by decide), ?_⟩
    simp only
    split
    case isTrue => exact .inl rfl
    case isFalse hne => exact .inr ⟨plain_getD _ "slug" (by decide), hne⟩
  · cases h

/-- What is written is read back exactly if its lines are plain and so is the slug. -/
theorem read_write_eq_iff {m : RunMeta} (hcreated : Plain m.createdAt)
    (hupdated : Plain m.updatedAt) (hstatus : Plain m.status) (hcounted : Counted m)
    (dirName : String) : read dirName m.write = some m ↔
      Plain m.profile ∧ Plain m.title ∧ Plain m.state ∧ slugRead dirName m.slug = m.slug := by
  constructor
  · intro h
    obtain ⟨hprofile, htitle, -⟩ := plain_of_read h
    have hstate := (plain_state_of_read h).1
    have hread := read_write_slug ⟨hprofile, htitle, hcreated, hupdated, hstatus, hstate⟩ hcounted
      dirName
    rw [h] at hread
    exact ⟨hprofile, htitle, hstate, (congrArg slug (Option.some.inj hread)).symm⟩
  · rintro ⟨hprofile, htitle, hstate, hslug⟩
    rw [read_write_slug ⟨hprofile, htitle, hcreated, hupdated, hstatus, hstate⟩ hcounted, hslug]

end RunMeta

theorem slugRead_of_line {slug : String} (hn : '\n' ∉ slug.toList) (hr : '\r' ∉ slug.toList)
    (dirName : String) : slugRead dirName slug =
      if strip slug.toList = [] then dirName else String.ofList (strip slug.toList) := by
  have hfields : fields (line "slug" slug) = [("slug".toList, strip slug.toList)] := by
    have h := fields_line (show IsKey "slug" by decide) hn hr []
    rw [List.append_nil] at h
    exact h
  have hget : get (fields (line "slug" slug)) "slug" = some (String.ofList (strip slug.toList)) := by
    rw [hfields]
    rfl
  have hempty : String.ofList (strip slug.toList) = "" ↔ strip slug.toList = [] := by
    refine ⟨fun h => ?_, fun h => by rw [h]⟩
    rw [← String.toList_ofList (l := strip slug.toList), h]
    rfl
  simp only [slugRead, hget, Option.getD_some, hempty]

/-- A slug that is the name of a directory. -/
structure SlugName (slug : String) : Prop where
  nonempty : slug ≠ ""
  noSlash : '/' ∉ slug.toList
  noNewline : '\n' ∉ slug.toList
  noReturn : '\r' ∉ slug.toList

theorem RunMeta.leaving_version (m : RunMeta) : m.leaving.version = m.version := by
  rw [leaving]
  split <;> rfl

theorem RunMeta.leaving_same (m : RunMeta) : m.leaving.slug = m.slug ∧
    m.leaving.profile = m.profile ∧ m.leaving.title = m.title ∧
    m.leaving.createdAt = m.createdAt ∧ m.leaving.status = m.status := by
  rw [leaving]
  split <;> exact ⟨rfl, rfl, rfl, rfl, rfl⟩

section Updates

variable {digest : WalEntry → String} {d : Disk} {slug toState : String}
  {profile : Option ProductProfile} {overrides : List Override} {now walTime : DateTime}
  {ws : List Write} {m : RunMeta}

theorem updateState_ok
    (h : updateState digest d slug toState profile overrides now walTime = .ok (ws, m)) :
    ∃ dir stored, d.active slug = some dir ∧ Disk.readMeta slug dir = .ok (some stored) ∧
      m = stored.updated toState now := by
  cases hdir : d.active slug with
  | none =>
      rw [updateState, hdir] at h
      cases h
  | some dir =>
      cases hread : Disk.readMeta slug dir with
      | error e =>
          rw [updateState, hdir] at h
          simp only [hread] at h
          cases h
      | ok found =>
          cases found with
          | none =>
              rw [updateState, hdir] at h
              simp only [hread] at h
              cases h
          | some stored =>
              refine ⟨dir, stored, rfl, hread, ?_⟩
              obtain ⟨e, -, hfail⟩ | ⟨-, writes, hok, -⟩ :=
                updateState_read digest hdir hread profile toState overrides now walTime
              · rw [hfail] at h
                cases h
              · rw [hok] at h
                exact (Prod.mk.inj (Except.ok.inj h)).2.symm

theorem readMeta_some {dir : RunDir} {content : String} (hdir : dir.content = some content)
    {stored : RunMeta} (h : Disk.readMeta slug dir = .ok (some stored)) :
    RunMeta.read slug content = some stored := by
  rw [Disk.readMeta, hdir] at h
  simp only at h
  split at h
  · cases h
  · rename_i hread
    rw [hread]
    exact congrArg some (Option.some.inj (Except.ok.inj h))

/-- update_state on a directory that holds written metadata. -/
theorem updateState_written {prev : RunMeta} (hdir : d.active slug = some (dirOf prev))
    (h : updateState digest d slug toState profile overrides now walTime = .ok (ws, m)) :
    ∃ stored, RunMeta.read slug prev.write = some stored ∧ m = stored.updated toState now := by
  obtain ⟨dir, stored, hactive, hread, hm⟩ := updateState_ok h
  rw [hdir] at hactive
  obtain rfl := Option.some.inj hactive
  exact ⟨stored, readMeta_some rfl hread, hm⟩

theorem Counted.updated {stored : RunMeta} (h : Counted stored) (toState : String)
    (now : DateTime) : Counted (stored.updated toState now) := by
  obtain ⟨version, hversion⟩ := h.version
  obtain ⟨iterationCount, hiteration⟩ := h.iterationCount
  refine ⟨⟨version + 1, ?_⟩, ?_⟩
  · simp [RunMeta.updated, RunMeta.leaving_version, hversion]
  · simp only [RunMeta.updated, RunMeta.leaving]
    split
    · exact ⟨iterationCount + 1, by simp [hiteration]⟩
    · exact ⟨iterationCount, hiteration⟩

theorem Counted.of_read {prev stored : RunMeta} (h : Counted prev) {dirName : String}
    (hread : RunMeta.read dirName prev.write = some stored) : Counted stored := by
  obtain ⟨version, hversion⟩ := h.version
  obtain ⟨iterationCount, hiteration⟩ := h.iterationCount
  obtain ⟨m', hm', hv, hi⟩ := RunMeta.read_write_numbers hversion hiteration dirName
  rw [hread] at hm'
  obtain rfl := Option.some.inj hm'
  exact ⟨⟨version, hv⟩, ⟨iterationCount, hi⟩⟩

/-- What holds of all metadata that create_run and update_state write. -/
structure Written (slug : String) (m : RunMeta) : Prop where
  createdAt : Plain m.createdAt
  updatedAt : Plain m.updatedAt
  status : Plain m.status
  counted : Counted m
  slug : m.slug = slug ∨ Plain m.slug ∧ m.slug ≠ ""

theorem plain_isoformat (now : DateTime) : Plain now.isoformat :=
  plain_of_no_space now.isoformat_no_space

theorem createRun_written {title : String} {profile : ProductProfile}
    (h : createRun digest d title profile slug now walTime = .ok (ws, m)) : Written slug m := by
  rw [createRun] at h
  split at h
  · cases h
  · split at h
    · cases h
    · split at h
      · cases h
      · obtain ⟨-, rfl⟩ := Prod.mk.inj (Except.ok.inj h)
        exact ⟨plain_isoformat now, plain_isoformat now, (by decide : Plain "active"),
          ⟨⟨0, rfl⟩, ⟨0, rfl⟩⟩, .inl rfl⟩

theorem Counted.written_updated {prev stored : RunMeta} (hprev : Counted prev)
    (hread : RunMeta.read slug prev.write = some stored) (toState : String) (now : DateTime) :
    Written slug (stored.updated toState now) where
  createdAt := stored.leaving_same.2.2.2.1 ▸ (RunMeta.plain_of_read hread).2.2
  updatedAt := plain_isoformat now
  status := stored.leaving_same.2.2.2.2 ▸ (RunMeta.plain_state_of_read hread).2.1
  counted := (hprev.of_read hread).updated toState now
  slug := stored.leaving_same.1 ▸ (RunMeta.plain_state_of_read hread).2.2

end Updates

/-- The metadata of a run that create_run builds and update_state changes, in the
directory of the slug. -/
inductive Built (digest : WalEntry → String) (slug : String) : RunMeta → Prop
  | create {d : Disk} {title : String} {profile : ProductProfile} {now walTime : DateTime}
      {ws : List Write} {m : RunMeta}
      (h : createRun digest d title profile slug now walTime = .ok (ws, m)) : Built digest slug m
  | update {d : Disk} {prev : RunMeta} {toState : String} {profile : Option ProductProfile}
      {overrides : List Override} {now walTime : DateTime} {ws : List Write} {m : RunMeta}
      (hprev : Built digest slug prev) (hdir : d.active slug = some (dirOf prev))
      (h : updateState digest d slug toState profile overrides now walTime = .ok (ws, m)) :
      Built digest slug m

theorem Built.written {digest : WalEntry → String} {slug : String} {m : RunMeta}
    (h : Built digest slug m) : Written slug m := by
  induction h with
  | create h => exact createRun_written h
  | update hprev hdir h ih =>
      obtain ⟨stored, hread, rfl⟩ := updateState_written hdir h
      exact ih.counted.written_updated hread _ _

/-- The slug is read back exactly if it has no blanks at its ends or nothing else. -/
theorem Written.slugRead_iff {slug : String} {m : RunMeta} (hslug : SlugName slug)
    (h : Written slug m) : slugRead slug m.slug = m.slug ↔
      strip m.slug.toList = m.slug.toList ∨ strip m.slug.toList = [] := by
  have hbreaks : '\n' ∉ m.slug.toList ∧ '\r' ∉ m.slug.toList := by
    obtain hsame | ⟨hplain, -⟩ := h.slug
    · rw [hsame]
      exact ⟨hslug.noNewline, hslug.noReturn⟩
    · exact ⟨hplain.1, hplain.2.1⟩
  have hof : String.ofList (strip m.slug.toList) = m.slug ↔
      strip m.slug.toList = m.slug.toList := by
    refine ⟨fun heq => ?_, fun heq => by rw [heq, String.ofList_toList]⟩
    rw [← String.toList_ofList (l := strip m.slug.toList), heq]
  rw [slugRead_of_line hbreaks.1 hbreaks.2]
  split
  case isTrue hblank =>
    refine iff_of_true ?_ (.inr hblank)
    obtain hsame | ⟨hplain, hne⟩ := h.slug
    · exact hsame.symm
    · rw [hplain.2.2] at hblank
      refine absurd ?_ hne
      rw [← String.ofList_toList (s := m.slug), hblank]
  case isFalse hblank => rw [hof, or_iff_left hblank]

/-- Metadata that are written are read back as they are exactly if the profile, the title and the
state have no line breaks and no blanks at their ends, and the slug has none either or nothing
else. -/
theorem read_write_built_iff (digest : WalEntry → String) {slug : String} {m : RunMeta}
    (hslug : SlugName slug) (hm : Built digest slug m) :
    RunMeta.read slug m.write = some m ↔ Plain m.profile ∧ Plain m.title ∧ Plain m.state ∧
      (strip m.slug.toList = m.slug.toList ∨ strip m.slug.toList = []) := by
  have h := hm.written
  rw [RunMeta.read_write_eq_iff h.createdAt h.updatedAt h.status h.counted, h.slugRead_iff hslug]

theorem slugName_essay : SlugName "essay" := by
  refine ⟨?_, ?_, ?_, ?_⟩ <;> decide +kernel

theorem built_essay (title : String) : Built (fun _ => "") "essay" (essayMeta title 1) :=
  @Built.create _ _ {} title articles (atMinute 1) (atMinute 1) _ _ rfl

theorem read_write_essay :
    RunMeta.read "essay" (essayMeta "Essay" 1).write = some (essayMeta "Essay" 1) :=
  (read_write_built_iff (fun _ => "") slugName_essay (built_essay "Essay")).mpr
    ⟨by decide +kernel, by decide +kernel, by decide +kernel, .inl (by decide +kernel)⟩

/-- The title of a run gives it another slug. -/
theorem not_read_write : ¬ ∀ m, Built (fun _ => "") "essay" m →
    RunMeta.read "essay" m.write = some m := by
  intro h
  have hslug := congrArg (Option.map RunMeta.slug) (h _ (built_essay "Essay\nslug: other"))
  exact absurd hslug (by decide +kernel)

/-- A Run; its profile is the one that was given. -/
structure Run where
  runMeta : RunMeta
  runtime : RuntimeState
  deriving DecidableEq

namespace Run

/-- The Run that update_state returns. -/
def updated (toState : String) (m : RunMeta) : Run where
  runMeta := m
  runtime := { currentState := toState, version := m.version }

/-- The Run that get_run makes of an active run. -/
def active (m : RunMeta) : Run where
  runMeta := m
  runtime := { currentState := m.state, version := m.version, iterationCount := m.iterationCount }

def archived (m : RunMeta) : Run where
  runMeta := m
  runtime := { currentState := m.state }

end Run

/-- get_run -/
def Disk.run (d : Disk) (slug : String) : Except String (Option Run) :=
  match d.active slug with
  | some dir => (readMeta slug dir).map (Option.map Run.active)
  | none =>
    match d.archive slug with
    | some dir => (readMeta slug dir).map (Option.map Run.archived)
    | none => .ok none

theorem Run.active_eq_updated {m m' : RunMeta} {toState : String} :
    Run.active m' = Run.updated toState m ↔ m' = m ∧ m.state = toState ∧ m.iterationCount = 0 := by
  rw [Run.active, Run.updated, Run.mk.injEq]
  constructor
  · rintro ⟨rfl, hruntime⟩
    exact ⟨rfl, congrArg RuntimeState.currentState hruntime,
      congrArg RuntimeState.iterationCount hruntime⟩
  · rintro ⟨rfl, rfl, hzero⟩
    rw [hzero]
    exact ⟨rfl, rfl⟩

theorem RunMeta.updated_iterationCount {m : RunMeta} (h : Counted m) (toState : String)
    (now : DateTime) : (m.updated toState now).iterationCount = 0 ↔
      m.iterationCount = 0 ∧ m.state ≠ "iteration" := by
  obtain ⟨n, hn⟩ := h.iterationCount
  rw [updated, leaving]
  split
  case isTrue hstate =>
    refine iff_of_false ?_ fun h => h.2 hstate
    change m.iterationCount + 1 ≠ 0
    omega
  case isFalse hstate => exact (and_iff_left hstate).symm

/-- update_state returns what get_run returns behind it exactly if the run has not left the
iteration state yet, and the new state and the slug are read back as they are. -/
theorem updateState_run_iff (digest : WalEntry → String) (ops : List Op) {slug toState : String}
    {profile : Option ProductProfile} {overrides : List Override} {now walTime : DateTime}
    {ws : List Write} {m : RunMeta}
    (h : updateState digest (runOps digest {} ops) slug toState profile overrides now walTime =
      .ok (ws, m)) :
    ∃ stored, (runOps digest {} ops).getRun slug = .ok (some stored) ∧
      (((runOps digest {} ops).performAll ws).run slug = .ok (some (Run.updated toState m)) ↔
        stored.iterationCount = 0 ∧ stored.state ≠ "iteration" ∧ Plain toState ∧
          slugRead slug stored.slug = stored.slug) := by
  have hholds := holds_catalogued digest ops
  obtain ⟨dir, stored, hdir, hread, rfl⟩ := updateState_ok h
  obtain ⟨prev, hprev, rfl⟩ : ∃ prev, ((catalogued digest ops).2 slug).active = some prev ∧
      dirOf prev = dir := by
    rw [hholds.active] at hdir
    exact Option.map_eq_some_iff.mp hdir
  have hcounted : Counted prev := hholds.counted slug prev (by simp [hprev])
  have hwritten := readMeta_some rfl hread
  refine ⟨stored, by rw [Disk.getRun, hdir]; exact hread, ?_⟩
  have hm := hcounted.written_updated hwritten toState now
  have hrun : ((runOps digest {} ops).performAll ws).run slug = .ok (some (Run.updated toState
      (stored.updated toState now))) ↔
      RunMeta.read slug (stored.updated toState now).write = some (stored.updated toState now) ∧
        (stored.updated toState now).iterationCount = 0 := by
    rw [Disk.run, (updateState_dirs h).1, Function.update_self]
    simp only [Disk.readMeta, dirOf]
    cases hnext : RunMeta.read slug (stored.updated toState now).write with
    | none =>
        refine iff_of_false ?_ ?_
        · intro hfail
          cases hfail
        · rintro ⟨hfail, -⟩
          cases hfail
    | some next =>
        have heq : (Except.ok (some (Run.active next)) : Except String (Option Run)) =
            .ok (some (Run.updated toState (stored.updated toState now))) ↔
              Run.active next = Run.updated toState (stored.updated toState now) :=
          ⟨fun h => Option.some.inj (Except.ok.inj h), fun h => by rw [h]⟩
        refine heq.trans (Run.active_eq_updated.trans ?_)
        rw [Option.some.injEq]
        exact and_congr_right fun _ => and_iff_right rfl
  obtain ⟨hslug, hprofile, htitle, -, -⟩ := stored.leaving_same
  obtain ⟨hplain, htext, -⟩ := RunMeta.plain_of_read hwritten
  rw [hrun, RunMeta.read_write_eq_iff hm.createdAt hm.updatedAt hm.status hm.counted,
    RunMeta.updated_iterationCount (hcounted.of_read hwritten)]
  simp only [RunMeta.updated, hslug, hprofile, htitle]
  constructor
  · rintro ⟨⟨-, -, hstate, hkept⟩, hzero, hiteration⟩
    exact ⟨hzero, hiteration, hstate, hkept⟩
  · rintro ⟨hzero, hiteration, hstate, hkept⟩
    exact ⟨⟨hplain, htext, hstate, hkept⟩, hzero, hiteration⟩

theorem readMeta_dirOf {slug : String} {m : RunMeta}
    (hread : RunMeta.read slug m.write = some m) : Disk.readMeta slug (dirOf m) = .ok (some m) := by
  simp only [Disk.readMeta, dirOf, hread]

theorem writes_update {digest : WalEntry → String} {d : Disk} {slug toState : String}
    {profile : Option ProductProfile} {overrides : List Override} {now walTime : DateTime}
    {ws : List Write} {m : RunMeta}
    (h : updateState digest d slug toState profile overrides now walTime = .ok (ws, m)) :
    (Op.update slug toState profile overrides now walTime).writes digest d = ws := by
  rw [Op.writes, h]
  rfl

/-- Without a profile any state is taken. -/
theorem updateState_unchecked (digest : WalEntry → String) {d : Disk} {slug : String} {m : RunMeta}
    (hdir : d.active slug = some (dirOf m)) (hread : RunMeta.read slug m.write = some m)
    (toState : String) (now walTime : DateTime) :
    ∃ ws, updateState digest d slug toState none [] now walTime = .ok (ws, m.updated toState now) ∧
      (d.performAll ws).active slug = some (dirOf (m.updated toState now)) := by
  obtain ⟨e, hcheck, -⟩ | ⟨-, ws, hupdate, -⟩ :=
    updateState_read digest hdir (readMeta_dirOf hread) none toState [] now walTime
  · cases hcheck
  · refine ⟨ws, hupdate, ?_⟩
    rw [(updateState_dirs hupdate).1, Function.update_self]

/-- Metadata that are read back as they are stay so where the new state is plain. -/
theorem read_updated {slug : String} {m : RunMeta} (hcounted : Counted m)
    (hread : RunMeta.read slug m.write = some m) (hslug : slugRead slug m.slug = m.slug)
    {toState : String} (hstate : Plain toState) (now : DateTime) :
    RunMeta.read slug (m.updated toState now).write = some (m.updated toState now) := by
  have hm := hcounted.written_updated hread toState now
  obtain ⟨hsame, hprofile, htitle, -, -⟩ := m.leaving_same
  obtain ⟨hplain, htext, -⟩ := RunMeta.plain_of_read hread
  rw [RunMeta.read_write_eq_iff hm.createdAt hm.updatedAt hm.status hm.counted]
  simp only [RunMeta.updated, hsame, hprofile, htitle]
  exact ⟨hplain, htext, hstate, hslug⟩

theorem run_of_read {d : Disk} {slug : String} {m : RunMeta}
    (hdir : d.active slug = some (dirOf m)) (hread : RunMeta.read slug m.write = some m) :
    d.run slug = .ok (some (Run.active m)) := by
  rw [Disk.run, hdir]
  simp only [readMeta_dirOf hread]
  rfl

/-- The essay is moved in the given minute; no profile checks it. -/
def moveEssay (toState : String) (minute : Nat) : Op :=
  .update "essay" toState none [] (atMinute minute) (atMinute minute)

def startedEssay : Disk := runOps (fun _ => "") {} [startEssay "Essay" 1]

theorem startedEssay_active : startedEssay.active "essay" = some (dirOf (essayMeta "Essay" 1)) := by
  rfl

theorem slugRead_essay : slugRead "essay" "essay" = "essay" := by decide +kernel

theorem counted_essay (title : String) : Counted (essayMeta title 1) := ⟨⟨0, rfl⟩, ⟨0, rfl⟩⟩

theorem read_essay : RunMeta.read "essay" (essayMeta "Essay" 1).write =
    some (essayMeta "Essay" 1) :=
  (RunMeta.read_write_eq_iff (plain_isoformat (atMinute 1)) (plain_isoformat (atMinute 1))
    (show Plain "active" by decide +kernel) (counted_essay "Essay") "essay").mpr
      ⟨show Plain "article" by decide +kernel, show Plain "Essay" by decide +kernel,
        show Plain "draft" by decide +kernel, slugRead_essay⟩

theorem updateState_run_review : ∃ r,
    updateState (fun _ => "") startedEssay "essay" "review" none [] (atMinute 2) (atMinute 2) =
      .ok r ∧
    (startedEssay.performAll r.1).run "essay" = .ok (some (Run.updated "review" r.2)) := by
  obtain ⟨ws, hupdate, -⟩ := updateState_unchecked (fun _ => "") startedEssay_active read_essay
    "review" (atMinute 2) (atMinute 2)
  obtain ⟨stored, hstored, hiff⟩ :=
    updateState_run_iff (fun _ => "") [startEssay "Essay" 1] hupdate
  have hget : startedEssay.getRun "essay" = .ok (some (essayMeta "Essay" 1)) := by
    rw [Disk.getRun, startedEssay_active]
    exact readMeta_dirOf read_essay
  obtain rfl : essayMeta "Essay" 1 = stored :=
    Option.some.inj (Except.ok.inj (hget.symm.trans hstored))
  exact ⟨_, hupdate, hiff.mpr ⟨rfl, by decide +kernel, by decide +kernel, slugRead_essay⟩⟩

/-- The essay is in its iteration state. -/
def iteratedEssay : Disk :=
  runOps (fun _ => "") {} [startEssay "Essay" 1, moveEssay "iteration" 2]

theorem iteratedEssay_active : iteratedEssay.active "essay" =
    some (dirOf ((essayMeta "Essay" 1).updated "iteration" (atMinute 2))) := by
  obtain ⟨ws, hupdate, hactive⟩ := updateState_unchecked (fun _ => "") startedEssay_active read_essay
    "iteration" (atMinute 2) (atMinute 2)
  have hwrites : (moveEssay "iteration" 2).writes (fun _ => "") startedEssay = ws :=
    writes_update hupdate
  have hdisk : iteratedEssay = startedEssay.performAll
      ((moveEssay "iteration" 2).writes (fun _ => "") startedEssay) := by
    simp only [iteratedEssay, startedEssay, runOps, List.foldl_cons, List.foldl_nil]
  rw [hdisk, hwrites, hactive]

theorem not_updateState_run : ∃ r,
    updateState (fun _ => "") iteratedEssay "essay" "review" none [] (atMinute 3) (atMinute 3) =
      .ok r ∧
    (iteratedEssay.performAll r.1).run "essay" ≠ .ok (some (Run.updated "review" r.2)) := by
  have hcounted := (counted_essay "Essay").updated "iteration" (atMinute 2)
  have hread := read_updated (counted_essay "Essay") read_essay slugRead_essay
    (show Plain "iteration" by decide +kernel) (atMinute 2)
  have hnext := read_updated hcounted hread slugRead_essay
    (show Plain "review" by decide +kernel) (atMinute 3)
  obtain ⟨ws, hupdate, hactive⟩ := updateState_unchecked (fun _ => "") iteratedEssay_active hread
    "review" (atMinute 3) (atMinute 3)
  refine ⟨_, hupdate, fun hsame => ?_⟩
  rw [run_of_read hactive hnext] at hsame
  have hactive := Option.some.inj (Except.ok.inj hsame)
  have hzero := (Run.active_eq_updated.mp hactive).2.2
  exact ((RunMeta.updated_iterationCount hcounted "review" (atMinute 3)).mp hzero).2 rfl

end Prodinamik.Runs
