import Prodinamik.Lib.Run
import Prodinamik.Runs.Archive

namespace Prodinamik.Runs.Shared

open Lib Machine

/-- The arguments of update_state and the times that it reads. -/
structure Call where
  slug : String
  toState : String
  profile : Option ProductProfile
  overrides : List Override
  now : DateTime
  walTime : DateTime

/-- How far a call has come, with the metadata that it counts and validates with. -/
inductive Stage
  | opened
  | found (m : RunMeta)
  | logged (m : RunMeta)
  | loaded (m : RunMeta) (snapshot : Snapshot)
  | staged (m : RunMeta)
  | renamed (m : RunMeta)

namespace Call

def entry (c : Call) (m : RunMeta) : WalEntry :=
  .transition c.slug m.state c.toState (m.version + 1) c.now.isoformat

def data (c : Call) (m : RunMeta) : SnapEntry where
  state := c.toState
  status := "active"
  updatedAt := c.now.isoformat
  version := some (m.version + 1)

def result (c : Call) (m : RunMeta) : RunMeta :=
  { m with state := c.toState, updatedAt := c.now.isoformat, version := m.version + 1 }

/-- The part of update_state up to its first write. -/
def find (c : Call) (d : Disk) : Except String RunMeta :=
  match d.active c.slug with
  | none => .error ("Run '" ++ c.slug ++ "' not found")
  | some dir =>
    match Disk.readMeta c.slug dir with
    | .error e => .error e
    | .ok none => .error ("Run '" ++ c.slug ++ "' has no metadata")
    | .ok (some stored) =>
      match checkTransition c.profile stored.leaving c.toState c.overrides with
      | .error e => .error e
      | .ok () => .ok stored.leaving

end Call

inductive Progress
  | goes (d : Disk) (stage : Stage)
  | raises (e : String)
  | returns (d : Disk) (m : RunMeta)

section Interleaving

variable (digest : WalEntry → String)

/-- The next read or write of a call. The temporary file is one for both
engines; the one that renames it last finds none. -/
def Call.next (c : Call) (d : Disk) : Stage → Progress
  | .opened =>
    match c.find d with
    | .error e => .raises e
    | .ok m => .goes d (.found m)
  | .found m => .goes (d.perform (appendWal digest (c.entry m) c.walTime)) (.logged m)
  | .logged m => .goes d (.loaded m d.loadSnapshot)
  | .loaded m snapshot =>
      .goes (d.perform (.writeTmp (snapshot.update c.slug (c.data m)))) (.staged m)
  | .staged m =>
      if d.tmp.isSome then .goes (d.perform .renameTmp) (.renamed m)
      else .raises "[Errno 2] No such file or directory"
  | .renamed m =>
      .returns (d.perform (.writeMeta c.slug (c.result m).write)) (c.result m)

/-- Two engines on one directory, each in at most one call, and the calls that
have returned with the metadata of the run they returned. -/
structure Engines where
  disk : Disk
  jobs : Bool → Option (Call × Stage)
  returned : List (Call × RunMeta)

inductive Act
  | call (engine : Bool) (c : Call)
  | step (engine : Bool)

def Engines.act (g : Engines) : Act → Engines
  | .call engine c =>
      if (g.jobs engine).isSome then g
      else { g with jobs := Function.update g.jobs engine (some (c, .opened)) }
  | .step engine =>
    match g.jobs engine with
    | none => g
    | some (c, stage) =>
      match c.next digest g.disk stage with
      | .goes d stage' =>
          { g with disk := d, jobs := Function.update g.jobs engine (some (c, stage')) }
      | .raises _ => { g with jobs := Function.update g.jobs engine none }
      | .returns d m => ⟨d, Function.update g.jobs engine none, g.returned ++ [(c, m)]⟩

/-- The engines over a directory that earlier operations have left. -/
def Engines.over (ops : List Op) : Engines := ⟨runOps digest {} ops, fun _ => none, []⟩

end Interleaving

/-- Between the read of the metadata and the write of the new ones. -/
def Stage.holdsMeta : Stage → Prop
  | .opened => False
  | _ => True

/-- Between the read of the snapshot and the rename of the new one. -/
def Stage.holdsSnapshot : Stage → Prop
  | .loaded _ _ | .staged _ => True
  | _ => False

/-- The returned calls of one slug, in the order they returned in. -/
def Engines.of (g : Engines) (slug : String) : List (Call × RunMeta) :=
  g.returned.filter fun r => r.1.slug = slug

/-- The snapshot has the run in this state and version. -/
def Shows (d : Disk) (slug state : String) (version : Int) : Prop :=
  ∃ e, d.loadSnapshot.lookup slug = some e ∧ e.state = some state ∧ e.version = some version

/-- The version that a run directory holds. -/
def versionOf (d : Disk) (slug : String) : Int :=
  match (d.active slug).map (Disk.readMeta slug) with
  | some (.ok (some m)) => m.version
  | _ => 0

/-- The returned calls of a slug have different versions, each call has
counted, and when no call is under way the files show the call with the
highest version. -/
structure Kept (start : Disk) (g : Engines) (slug : String) : Prop where
  distinct : ((g.of slug).map fun r => r.2.version).Nodup
  final : (∀ engine, g.jobs engine = none) → g.of slug ≠ [] →
    ∃ r ∈ g.of slug, (∀ r' ∈ g.of slug, r'.2.version ≤ r.2.version) ∧
      r.2.version = versionOf start slug + (g.of slug).length ∧ r.2.state = r.1.toState ∧
      g.disk.active slug = some (dirOf r.2) ∧ Shows g.disk slug r.1.toState r.2.version

/-- No engine reads metadata, or the snapshot, that the other has read and has
still to replace. -/
def Act.Allowed (g : Engines) : Act → Prop
  | .call _ _ => True
  | .step engine => ∀ c stage c' stage', g.jobs engine = some (c, stage) →
      g.jobs (!engine) = some (c', stage') →
        (stage = .opened → stage'.holdsMeta → c'.slug ≠ c.slug) ∧
        ∀ m, stage = .logged m → ¬ stage'.holdsSnapshot

/-- What holds of a call that has come so far. -/
def JobInv (d : Disk) (version : Int) (c : Call) : Stage → Prop
  | .opened => True
  | .found m | .logged m => (d.active c.slug).isSome ∧ Counted m ∧ m.version = version
  | .loaded m snapshot =>
      ((d.active c.slug).isSome ∧ Counted m ∧ m.version = version) ∧ snapshot = d.loadSnapshot
  | .staged m =>
      ((d.active c.slug).isSome ∧ Counted m ∧ m.version = version) ∧
        d.tmp = some (d.loadSnapshot.update c.slug (c.data m))
  | .renamed m =>
      ((d.active c.slug).isSome ∧ Counted m ∧ m.version = version) ∧
        Shows d c.slug c.toState (m.version + 1)

structure Apart (j j' : Call × Stage) : Prop where
  runs : j.2.holdsMeta → j'.2.holdsMeta → j.1.slug ≠ j'.1.slug
  snapshot : j.2.holdsSnapshot → ¬ j'.2.holdsSnapshot

/-- The version of a run once the returned calls have counted. -/
def counted (start : Disk) (g : Engines) (slug : String) : Int :=
  versionOf start slug + (g.of slug).length

structure Inv (start : Disk) (g : Engines) : Prop where
  stored : ∀ slug dir, g.disk.active slug = some dir → ∃ m, Counted m ∧ dir = dirOf m ∧
    m.version = counted start g slug ∧ ∀ r, (g.of slug).getLast? = some r → r.2 = m
  numbered : ∀ slug (i : Nat) r, (g.of slug)[i]? = some r →
    r.2.version = versionOf start slug + i + 1 ∧ r.2.state = r.1.toState
  present : ∀ slug, g.of slug ≠ [] → (g.disk.active slug).isSome
  job : ∀ engine c stage, g.jobs engine = some (c, stage) →
    JobInv g.disk (counted start g c.slug) c stage
  apart : ∀ engine j j', g.jobs engine = some j → g.jobs (!engine) = some j' → Apart j j'
  shown : ∀ slug r, (g.of slug).getLast? = some r →
    (∀ engine c m, g.jobs engine = some (c, .renamed m) → c.slug ≠ slug) →
      Shows g.disk slug r.1.toState r.2.version

variable {digest : WalEntry → String} {start : Disk} {g : Engines}

theorem Apart.symm {j j' : Call × Stage} (h : Apart j j') : Apart j' j where
  runs := fun hj' hj heq => h.runs hj hj' heq.symm
  snapshot := fun hj' hj => h.snapshot hj hj'

theorem find_stored {c : Call} {d : Disk} {m : RunMeta} (h : c.find d = .ok m) :
    ∃ dir stored, d.active c.slug = some dir ∧ Disk.readMeta c.slug dir = .ok (some stored) ∧
      m = stored.leaving := by
  rw [Call.find] at h
  cases hdir : d.active c.slug with
  | none =>
      rw [hdir] at h
      cases h
  | some dir =>
      rw [hdir] at h
      simp only at h
      split at h
      · cases h
      · cases h
      · rename_i stored hread
        split at h
        · cases h
        · cases h
          exact ⟨dir, stored, rfl, hread, rfl⟩

theorem leaving_version (m : RunMeta) : m.leaving.version = m.version := by
  rw [RunMeta.leaving]
  split <;> rfl

theorem leaving_counted {m : RunMeta} (h : Counted m) : Counted m.leaving := by
  obtain ⟨n, hn⟩ := h.iterationCount
  refine ⟨leaving_version m ▸ h.version, ?_⟩
  rw [RunMeta.leaving]
  split
  · exact ⟨n + 1, by simp [hn]⟩
  · exact ⟨n, hn⟩

theorem result_counted {m : RunMeta} (h : Counted m) (c : Call) : Counted (c.result m) := by
  obtain ⟨n, hn⟩ := h.version
  exact ⟨⟨n + 1, by simp [Call.result, hn]⟩, h.iterationCount⟩

theorem readMeta_dirOf {m stored : RunMeta} {slug : String} (h : Counted m)
    (hread : Disk.readMeta slug (dirOf m) = .ok (some stored)) :
    Counted stored ∧ stored.version = m.version := by
  obtain ⟨v, hv⟩ := h.version
  obtain ⟨n, hn⟩ := h.iterationCount
  obtain ⟨m', hm', hv', hn'⟩ := RunMeta.read_write_numbers hv hn slug
  simp only [Disk.readMeta, dirOf, hm'] at hread
  cases hread
  exact ⟨⟨⟨v, hv'⟩, ⟨n, hn'⟩⟩, hv'.trans hv.symm⟩

/-- The first read of a call finds the version that the returned calls have
counted. -/
theorem Inv.find (h : Inv start g) {c : Call} {m : RunMeta} (hfind : c.find g.disk = .ok m) :
    (g.disk.active c.slug).isSome ∧ Counted m ∧ m.version = counted start g c.slug := by
  obtain ⟨dir, stored, hdir, hread, rfl⟩ := find_stored hfind
  obtain ⟨m', hcounted, rfl, hversion, -⟩ := h.stored c.slug dir hdir
  obtain ⟨hstored, hv⟩ := readMeta_dirOf hcounted hread
  exact ⟨by rw [hdir]; rfl, leaving_counted hstored, (leaving_version _).trans (hv.trans hversion)⟩

theorem versionOf_start (ops : List Op) {slug : String} {m : RunMeta} (h : Counted m)
    (hdir : (runOps digest {} ops).active slug = some (dirOf m)) :
    versionOf (runOps digest {} ops) slug = m.version := by
  obtain ⟨v, hv⟩ := h.version
  obtain ⟨n, hn⟩ := h.iterationCount
  obtain ⟨m', hm', hv', -⟩ := RunMeta.read_write_numbers hv hn slug
  rw [versionOf, hdir]
  simp only [Option.map_some, Disk.readMeta, dirOf, hm']
  exact hv'.trans hv.symm

theorem inv_over (digest : WalEntry → String) (ops : List Op) :
    Inv (runOps digest {} ops) (.over digest ops) where
  stored := by
    intro slug dir hdir
    have hholds := holds_catalogued digest ops
    have hdir' : (runOps digest {} ops).active slug = some dir := hdir
    rw [hholds.active] at hdir'
    obtain ⟨m, hm, rfl⟩ := Option.map_eq_some_iff.mp hdir'
    have hcounted : Counted m := hholds.counted slug m (by simp [hm])
    refine ⟨m, hcounted, rfl, ?_, fun r hr => absurd hr (by simp [Engines.of, Engines.over])⟩
    rw [counted, versionOf_start ops hcounted hdir]
    simp [Engines.of, Engines.over]
  numbered := fun slug i r hr => absurd hr (by simp [Engines.of, Engines.over])
  present := fun slug hne => absurd rfl hne
  job := by
    intro engine c stage hj
    cases hj
  apart := by
    intro engine j j' hj
    cases hj
  shown := fun slug r hr => absurd hr (by simp [Engines.of, Engines.over])

theorem jobs_update {jobs : Bool → Option (Call × Stage)} {engine engine' : Bool}
    {j : Option (Call × Stage)} {x : Call × Stage}
    (h : Function.update jobs engine j engine' = some x) :
    engine' = engine ∧ j = some x ∨ engine' = !engine ∧ jobs (!engine) = some x := by
  by_cases heq : engine' = engine
  · subst heq
    rw [Function.update_self] at h
    exact Or.inl ⟨rfl, h⟩
  · have hnot : engine' = !engine := Bool.eq_not_of_ne heq
    rw [Function.update_of_ne heq, hnot] at h
    exact Or.inr ⟨hnot, h⟩

/-- A call ends, or goes on, without a word on its run. -/
theorem Inv.moves (h : Inv start g) {engine : Bool} {j : Option (Call × Stage)} {d : Disk}
    (hactive : d.active = g.disk.active)
    (hjob : ∀ c stage, j = some (c, stage) → JobInv d (counted start g c.slug) c stage)
    (hother : ∀ c stage, g.jobs (!engine) = some (c, stage) →
      JobInv d (counted start g c.slug) c stage)
    (hapart : ∀ x y, j = some x → g.jobs (!engine) = some y → Apart x y)
    (hbefore : ∀ c m, g.jobs engine ≠ some (c, .renamed m))
    (hkeep : ∀ slug state version, (∀ c m, j = some (c, .renamed m) → c.slug ≠ slug) →
      Shows g.disk slug state version → Shows d slug state version) :
    Inv start { g with disk := d, jobs := Function.update g.jobs engine j } where
  stored := by
    intro slug dir hdir
    exact h.stored slug dir (by rwa [hactive] at hdir)
  numbered := h.numbered
  present := by
    intro slug hne
    rw [hactive]
    exact h.present slug hne
  job := by
    intro e c stage he
    rcases jobs_update he with ⟨-, hj⟩ | ⟨-, hj⟩
    · exact hjob c stage hj
    · exact hother c stage hj
  apart := by
    intro e x y hx hy
    rcases jobs_update hx with ⟨rfl, hj⟩ | ⟨rfl, hj⟩
    · rcases jobs_update hy with ⟨hne, -⟩ | ⟨-, hj'⟩
      · exact absurd hne (Bool.not_ne_self e)
      · exact hapart x y hj hj'
    · rcases jobs_update hy with ⟨-, hj'⟩ | ⟨hne, -⟩
      · exact (hapart y x hj' hj).symm
      · exact absurd hne (by simp)
  shown := by
    intro slug r hr hno
    refine hkeep slug _ _ (fun c m hj => hno engine c m (by simp [hj])) (h.shown slug r hr ?_)
    intro e c m he
    by_cases heq : e = engine
    · exact absurd (heq ▸ he) (hbefore c m)
    · exact hno e c m (by simpa [Function.update_of_ne heq] using he)

theorem shows_of_snapshot {d d' : Disk} (h : d'.loadSnapshot = d.loadSnapshot) {slug state : String}
    {version : Int} (hs : Shows d slug state version) : Shows d' slug state version := by
  rwa [Shows, h]

theorem shows_self {d : Disk} {s : Snapshot} {c : Call} {m : RunMeta}
    (h : d.snapshot = some (s.update c.slug (c.data m))) :
    Shows d c.slug c.toState (m.version + 1) := by
  refine ⟨((s.lookup c.slug).getD {}).update (c.data m), ?_, rfl, rfl⟩
  rw [Disk.loadSnapshot, h, Option.getD_some, Snapshot.update, AList.lookup_insert]

theorem shows_other {d d' : Disk} {c : Call} {m : RunMeta}
    (h : d'.snapshot = some (d.loadSnapshot.update c.slug (c.data m))) {slug state : String}
    {version : Int} (hne : c.slug ≠ slug) (hs : Shows d slug state version) :
    Shows d' slug state version := by
  obtain ⟨e, he, hstate, hversion⟩ := hs
  refine ⟨e, ?_, hstate, hversion⟩
  rw [Disk.loadSnapshot, h, Option.getD_some, Snapshot.update, AList.lookup_insert_ne hne.symm]
  exact he

theorem JobInv.frame {d d' : Disk} {version : Int} {c : Call} {stage : Stage}
    (h : JobInv d version c stage) (hactive : d'.active c.slug = d.active c.slug)
    (hsnapshot : d'.snapshot = d.snapshot) (htmp : d'.tmp = d.tmp) : JobInv d' version c stage := by
  have hload : d'.loadSnapshot = d.loadSnapshot := by
    rw [Disk.loadSnapshot, Disk.loadSnapshot, hsnapshot]
  cases stage with
  | opened => trivial
  | found m | logged m => exact ⟨by rw [hactive]; exact h.1, h.2⟩
  | loaded m snapshot => exact ⟨⟨by rw [hactive]; exact h.1.1, h.1.2⟩, h.2.trans hload.symm⟩
  | staged m => exact ⟨⟨by rw [hactive]; exact h.1.1, h.1.2⟩, by rw [htmp, hload, h.2]⟩
  | renamed m => exact ⟨⟨by rw [hactive]; exact h.1.1, h.1.2⟩, shows_of_snapshot hload h.2⟩

/-- What a call that goes on does to the job of the other engine. -/
theorem Inv.goes (h : Inv start g) {engine : Bool} {c : Call} {stage stage' : Stage} {d : Disk}
    (hj : g.jobs engine = some (c, stage)) (hallowed : (Act.step engine).Allowed g)
    (hnext : c.next digest g.disk stage = .goes d stage') :
    Inv start { g with disk := d, jobs := Function.update g.jobs engine (some (c, stage')) } := by
  have hinv := h.job engine c stage hj
  have halone : ∀ c' s', g.jobs (!engine) = some (c', s') →
      (stage = .opened → s'.holdsMeta → c'.slug ≠ c.slug) ∧
        ∀ m, stage = .logged m → ¬ s'.holdsSnapshot :=
    fun c' s' h' => hallowed c stage c' s' hj h'
  have hother : ∀ c' s', g.jobs (!engine) = some (c', s') →
      JobInv g.disk (counted start g c'.slug) c' s' := fun c' s' h' => h.job _ c' s' h'
  have hapart : ∀ y, g.jobs (!engine) = some y → Apart (c, stage) y :=
    fun y hy => h.apart engine _ _ hj hy
  cases stage with
  | opened =>
      rw [Call.next] at hnext
      cases hfind : c.find g.disk with
      | error e =>
          rw [hfind] at hnext
          cases hnext
      | ok m =>
          rw [hfind] at hnext
          cases hnext
          refine h.moves rfl ?_ hother ?_ (by simp [hj]) (fun _ _ _ _ hs => hs)
          · rintro _ _ ⟨⟩
            exact h.find hfind
          · rintro _ ⟨c', s'⟩ ⟨⟩ hy
            exact ⟨fun _ hm heq => (halone c' s' hy).1 rfl hm heq.symm, fun hs => hs.elim⟩
  | found m =>
      cases hnext
      refine h.moves rfl ?_ hother ?_ (by simp [hj]) (fun _ _ _ _ hs => hs)
      · rintro _ _ ⟨⟩
        exact hinv
      · rintro _ y ⟨⟩ hy
        exact ⟨fun _ => (hapart y hy).runs trivial, fun hs => hs.elim⟩
  | logged m =>
      cases hnext
      refine h.moves rfl ?_ hother ?_ (by simp [hj]) (fun _ _ _ _ hs => hs)
      · rintro _ _ ⟨⟩
        exact ⟨hinv, rfl⟩
      · rintro _ ⟨c', s'⟩ ⟨⟩ hy
        exact ⟨fun _ => (hapart _ hy).runs trivial, fun _ => (halone c' s' hy).2 m rfl⟩
  | loaded m snapshot =>
      cases hnext
      refine h.moves rfl ?_ ?_ ?_ (by simp [hj]) (fun _ _ _ _ hs => hs)
      · rintro _ _ ⟨⟩
        exact ⟨hinv.1, by rw [hinv.2]; rfl⟩
      · intro c' s' hy
        cases s' with
        | staged m' => exact absurd trivial ((hapart _ hy).snapshot trivial)
        | opened | found | logged | loaded | renamed => exact hother c' _ hy
      · rintro _ y ⟨⟩ hy
        exact ⟨fun _ => (hapart y hy).runs trivial, fun _ => (hapart y hy).snapshot trivial⟩
  | staged m =>
      obtain ⟨hfresh, htmp⟩ := hinv
      simp only [Call.next, htmp, Option.isSome_some, if_true] at hnext
      cases hnext
      have hsnapshot : (g.disk.perform .renameTmp).snapshot =
          some (g.disk.loadSnapshot.update c.slug (c.data m)) := htmp
      refine h.moves rfl ?_ ?_ ?_ (by simp [hj]) ?_
      · rintro _ _ ⟨⟩
        exact ⟨hfresh, shows_self hsnapshot⟩
      · intro c' s' hy
        cases s' with
        | staged m' => exact absurd trivial ((hapart _ hy).snapshot trivial)
        | loaded m' snapshot => exact absurd trivial ((hapart _ hy).snapshot trivial)
        | renamed m' =>
            have hold := hother c' _ hy
            exact ⟨hold.1, shows_other hsnapshot ((hapart _ hy).runs trivial trivial) hold.2⟩
        | opened | found | logged => exact hother c' _ hy
      · rintro _ y ⟨⟩ hy
        exact ⟨fun _ => (hapart y hy).runs trivial, fun hs => hs.elim⟩
      · intro slug state version hne hs
        exact shows_other hsnapshot (hne c m rfl) hs
  | renamed m => cases hnext

theorem of_append (g : Engines) (r : Call × RunMeta) (d : Disk)
    (jobs : Bool → Option (Call × Stage)) (slug : String) :
    (⟨d, jobs, g.returned ++ [r]⟩ : Engines).of slug =
      if r.1.slug = slug then g.of slug ++ [r] else g.of slug := by
  rw [Engines.of, List.filter_append, List.filter_singleton]
  by_cases h : r.1.slug = slug
  · simp [h, Engines.of]
  · simp [h, Engines.of]

/-- A call that returns has counted once more. -/
theorem Inv.returns (h : Inv start g) {engine : Bool} {c : Call} {stage : Stage} {d : Disk}
    {m' : RunMeta} (hj : g.jobs engine = some (c, stage))
    (hnext : c.next digest g.disk stage = .returns d m') :
    Inv start ⟨d, Function.update g.jobs engine none, g.returned ++ [(c, m')]⟩ := by
  cases stage with
  | opened =>
      rw [Call.next] at hnext
      split at hnext <;> cases hnext
  | found m => cases hnext
  | logged m => cases hnext
  | loaded m snapshot => cases hnext
  | staged m =>
      rw [Call.next] at hnext
      split at hnext <;> cases hnext
  | renamed m =>
      cases hnext
      obtain ⟨⟨hactive, hcounted, hversion⟩, hshows⟩ := h.job engine c _ hj
      have hself : ∀ jobs d, (⟨d, jobs, g.returned ++ [(c, c.result m)]⟩ : Engines).of c.slug =
          g.of c.slug ++ [(c, c.result m)] := by
        intro jobs d
        rw [of_append, if_pos rfl]
      have hne : ∀ {slug}, c.slug ≠ slug → ∀ jobs d,
          (⟨d, jobs, g.returned ++ [(c, c.result m)]⟩ : Engines).of slug = g.of slug := by
        intro slug hslug jobs d
        rw [of_append, if_neg hslug]
      have hdir : ∀ {slug}, c.slug ≠ slug →
          (g.disk.perform (.writeMeta c.slug (c.result m).write)).active slug = g.disk.active slug :=
        fun hslug => Function.update_of_ne hslug.symm _ _
      have hnew : (c.result m).version = counted start g c.slug + 1 := by rw [← hversion]; rfl
      refine ⟨?_, ?_, ?_, ?_, ?_, ?_⟩
      · intro slug dir hsome
        by_cases hslug : c.slug = slug
        · subst hslug
          refine ⟨c.result m, result_counted hcounted c, ?_, ?_, ?_⟩
          · obtain ⟨old, hold⟩ := Option.isSome_iff_exists.mp hactive
            have hwrite : (g.disk.perform (.writeMeta c.slug (c.result m).write)).active c.slug =
                some (dirOf (c.result m)) := by
              simp [Disk.perform, hold, dirOf]
            exact (Option.some.inj (hwrite.symm.trans hsome)).symm
          · rw [counted, hself, List.length_append, hnew, counted]
            simp
            omega
          · intro r hr
            rw [hself, List.getLast?_concat, Option.some.injEq] at hr
            rw [← hr]
        · rw [hdir hslug] at hsome
          rw [counted, hne hslug]
          exact h.stored slug dir hsome
      · intro slug i r hr
        by_cases hslug : c.slug = slug
        · subst hslug
          rw [hself] at hr
          rcases Nat.lt_trichotomy i (g.of c.slug).length with hlt | rfl | hgt
          · rw [List.getElem?_append_left hlt] at hr
            exact h.numbered c.slug i r hr
          · rw [List.getElem?_concat_length, Option.some.injEq] at hr
            rw [← hr]
            exact ⟨hnew, rfl⟩
          · rw [List.getElem?_eq_none (by simp; omega)] at hr
            cases hr
        · rw [hne hslug] at hr
          exact h.numbered slug i r hr
      · intro slug hsome
        by_cases hslug : c.slug = slug
        · subst hslug
          obtain ⟨old, hold⟩ := Option.isSome_iff_exists.mp hactive
          simp [Disk.perform, hold]
        · rw [hne hslug] at hsome
          rw [hdir hslug]
          exact h.present slug hsome
      · intro e c' stage' he
        rcases jobs_update he with ⟨-, hnone⟩ | ⟨rfl, hother⟩
        · cases hnone
        · have hold := h.job _ c' stage' hother
          have hapart := h.apart engine _ _ hj hother
          by_cases hslug : c.slug = c'.slug
          · cases stage' with
            | opened => trivial
            | found | logged | loaded | staged | renamed =>
                exact absurd hslug (hapart.runs trivial trivial)
          · rw [counted, hne hslug]
            exact hold.frame (hdir hslug) rfl rfl
      · intro e x y hx hy
        rcases jobs_update hx with ⟨-, hnone⟩ | ⟨rfl, -⟩
        · cases hnone
        · rcases jobs_update hy with ⟨-, hnone⟩ | ⟨hnot, -⟩
          · cases hnone
          · exact absurd hnot (by simp)
      · intro slug r hr hno
        by_cases hslug : c.slug = slug
        · subst hslug
          rw [hself, List.getLast?_concat, Option.some.injEq] at hr
          rw [← hr]
          exact hshows
        · rw [hne hslug] at hr
          refine h.shown slug r hr fun e c' m'' he => ?_
          by_cases heq : e = engine
          · rw [heq, hj] at he
            cases he
            exact hslug
          · exact hno e c' m'' ((Function.update_of_ne heq _ _).trans he)

theorem Inv.act (h : Inv start g) {a : Act} (hallowed : a.Allowed g) :
    Inv start (g.act digest a) := by
  cases a with
  | call engine c =>
      rw [Engines.act]
      split
      · exact h
      · rename_i hidle
        refine h.moves rfl ?_ (fun c' s' h' => h.job _ c' s' h') ?_ ?_ (fun _ _ _ _ hs => hs)
        · rintro _ _ ⟨⟩
          trivial
        · rintro _ y ⟨⟩ hy
          exact ⟨fun hm => hm.elim, fun hs => hs.elim⟩
        · intro c' m hj
          exact hidle (by rw [hj]; rfl)
  | step engine =>
      rw [Engines.act]
      cases hj : g.jobs engine with
      | none => exact h
      | some job =>
          obtain ⟨c, stage⟩ := job
          simp only
          cases hnext : c.next digest g.disk stage with
          | goes d stage' => exact h.goes hj hallowed hnext
          | returns d m => exact h.returns hj hnext
          | raises e =>
              refine h.moves rfl ?_ (fun c' s' h' => h.job _ c' s' h') ?_ ?_ (fun _ _ _ _ hs => hs)
              · intro c' stage' hnone
                cases hnone
              · intro x y hnone
                cases hnone
              · intro c' m hrenamed
                rw [hj] at hrenamed
                cases hrenamed
                cases hnext

theorem Inv.kept (h : Inv start g) (slug : String) : Kept start g slug := by
  have hversion : ∀ (i : Nat) (hi : i < (g.of slug).length),
      (g.of slug)[i].2.version = versionOf start slug + i + 1 :=
    fun i hi => (h.numbered slug i _ (List.getElem?_eq_getElem hi)).1
  refine ⟨?_, ?_⟩
  · rw [List.nodup_iff_injective_getElem]
    intro i j heq
    have hi := hversion i (by simpa using i.2)
    have hj := hversion j (by simpa using j.2)
    simp only [List.getElem_map] at heq
    rw [hi, hj] at heq
    exact Fin.ext (by omega)
  · intro hidle hne
    obtain ⟨r, hlast⟩ := Option.isSome_iff_exists.mp (List.getLast?_isSome.mpr hne)
    obtain ⟨dir, hdir⟩ := Option.isSome_iff_exists.mp (h.present slug hne)
    obtain ⟨m, -, rfl, hcount, hm⟩ := h.stored slug dir hdir
    obtain rfl := hm r hlast
    have hget : (g.of slug)[(g.of slug).length - 1]? = some r := by
      rw [← hlast, List.getLast?_eq_getElem?]
    refine ⟨r, List.mem_of_getLast? hlast, ?_, hcount, (h.numbered slug _ r hget).2, hdir, ?_⟩
    · intro r' hr'
      obtain ⟨i, hi, rfl⟩ := List.mem_iff_getElem.mp hr'
      rw [hversion i hi, hcount, counted]
      omega
    · refine h.shown slug r hlast fun engine c m' hj => ?_
      rw [hidle engine] at hj
      cases hj

/-- Two engines lose no update when no engine reads what the other is about to
replace. -/
theorem updates_kept (digest : WalEntry → String) (ops : List Op) (acts : List Act)
    (h : Run.Steps (Engines.act digest) (fun g a => a.Allowed g) (.over digest ops) acts) :
    Run.Always (Engines.act digest)
      (fun g => ∀ slug, Kept (runOps digest {} ops) g slug) (.over digest ops) acts := by
  have hact : ∀ (g : Engines) (a : Act), Inv (runOps digest {} ops) g → a.Allowed g →
      Inv (runOps digest {} ops) (g.act digest a) := fun g a hg ha => hg.act ha
  have hrun := Run.along_of_invariant hact (inv_over digest ops) h
  exact hrun.imp (fun g hg slug => hg.kept slug) fun _ _ _ => trivial

/-- update_state as one operation is its first part followed by its writes. -/
theorem updateState_find (digest : WalEntry → String) (c : Call) (d : Disk) :
    updateState digest d c.slug c.toState c.profile c.overrides c.now c.walTime =
      (c.find d).map fun m =>
        ([appendWal digest (c.entry m) c.walTime] ++ updateSnapshot d c.slug (c.data m) ++
          [.writeMeta c.slug (c.result m).write], c.result m) := by
  rw [updateState, Call.find]
  cases d.active c.slug with
  | none => rfl
  | some dir =>
      simp only
      cases Disk.readMeta c.slug dir with
      | error e => rfl
      | ok stored =>
          cases stored with
          | none => rfl
          | some stored =>
              simp only
              cases checkTransition c.profile stored.leaving c.toState c.overrides with
              | error e => rfl
              | ok u => rfl

/-- A call that no other engine comes between. -/
def alone (engine : Bool) (c : Call) : List Act := .call engine c :: List.replicate 6 (.step engine)

theorem alone_updateState {engine : Bool} (hidle : g.jobs engine = none) (c : Call) :
    (alone engine c).foldl (Engines.act digest) g =
      match updateState digest g.disk c.slug c.toState c.profile c.overrides c.now c.walTime with
      | .ok (ws, m) => ⟨g.disk.performAll ws, g.jobs, g.returned ++ [(c, m)]⟩
      | .error _ => g := by
  have hjobs : Function.update g.jobs engine none = g.jobs := by
    rw [← hidle, Function.update_eq_self]
  rw [updateState_find]
  cases hfind : c.find g.disk with
  | error e =>
      simp [alone, Engines.act, Call.next, hidle, hfind, List.replicate, Function.update_idem, hjobs,
        Except.map]
  | ok m =>
      simp [alone, Engines.act, Call.next, hidle, hfind, List.replicate, Function.update_idem, hjobs,
        Except.map, Disk.performAll, Disk.perform, appendWal, updateSnapshot, Disk.loadSnapshot]

def Act.engine : Act → Bool
  | .call engine _ | .step engine => engine

/-- An act of one engine leaves the other alone. -/
theorem act_other (g : Engines) {a : Act} {engine : Bool} (h : a.engine = engine) :
    (g.act digest a).jobs (!engine) = g.jobs (!engine) := by
  have hne : (!engine) ≠ engine := Bool.not_ne_self engine
  cases a with
  | call e c =>
      cases h
      rw [Engines.act]
      split
      · rfl
      · exact Function.update_of_ne hne _ _
  | step e =>
      cases h
      rw [Engines.act]
      split
      · rfl
      · split <;> exact Function.update_of_ne hne _ _

/-- An engine whose companion is idle may do anything. -/
theorem steps_of_one (engine : Bool) (hidle : g.jobs (!engine) = none) {acts : List Act}
    (h : ∀ a ∈ acts, a.engine = engine) :
    Run.Steps (Engines.act digest) (fun g a => a.Allowed g) g acts := by
  induction acts generalizing g with
  | nil => trivial
  | cons a acts ih =>
      have ha := h a List.mem_cons_self
      refine ⟨trivial, ?_, ih ((act_other g ha).trans hidle) fun b hb =>
        h b (List.mem_cons_of_mem _ hb)⟩
      cases a with
      | call e c => trivial
      | step e =>
          cases ha
          intro c stage c' stage' _ hj
          exact absurd (hidle.symm.trans hj) (by simp)

/-- An update of the article in its draft, without a profile to validate with. -/
def update (state : String) (minute : Nat) : Call where
  slug := "a"
  toState := state
  profile := none
  overrides := []
  now := atMinute minute
  walTime := atMinute minute

theorem updates_kept_alone :
    Run.Always (Engines.act fun _ => "") (fun g => ∀ slug, Kept (runOps (fun _ => "") {} [startA]) g slug)
      (.over (fun _ => "") [startA]) (alone false (update "published" 2)) :=
  updates_kept (fun _ => "") [startA] (alone false (update "published" 2))
    (steps_of_one false rfl (by simp [alone, Act.engine]))

/-- Both engines read version 0 before either has written. -/
def crossing : List Act :=
  [.call false (update "published" 2), .call true (update "rejected" 3), .step false, .step true] ++
    List.replicate 5 (.step false) ++ List.replicate 5 (.step true)

theorem updates_lost :
    ¬ Run.Always (Engines.act fun _ => "")
      (fun g => ∀ slug, Kept (runOps (fun _ => "") {} [startA]) g slug)
      (.over (fun _ => "") [startA]) crossing := by
  intro h
  have hdistinct := (h.last "a").distinct
  have hversions : ((crossing.foldl (Engines.act fun _ => "") (.over (fun _ => "") [startA])).of
      "a").map (fun r => r.2.version) = [1, 1] := by decide +kernel
  rw [hversions] at hdistinct
  exact absurd hdistinct (by decide)

end Prodinamik.Runs.Shared
