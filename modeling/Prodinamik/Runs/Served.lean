import Prodinamik.Runs.Crash

namespace Prodinamik.Runs

open Machine

/-- The state, status and version of get_run(slug).meta. -/
def served (d : Disk) (slug : String) : Option Record :=
  match d.getRun slug with
  | .ok (some m) => some ⟨m.state, m.status, m.version⟩
  | _ => none

/-- What the metadata of a run tells; archiving does not change it. -/
def Track.served (t : Track) : Option Record := t.record.map fun r => { r with status := "active" }

/-- The snapshot knows the version of the run, and the run is not archived. -/
def Track.Settled (t : Track) : Prop :=
  t.phase = .absent ∨ ∃ state, t.phase = .active state t.stored

theorem Track.served_eq_recovered (t : Track) : t.served = t.recovered ↔ t.Settled := by
  rw [Track.served, Track.recovered, Track.Settled, Track.record]
  cases hp : t.phase with
  | absent => simp
  | active state version => simp
  | archived state version => simp

variable {digest : WalEntry → String} {d : Disk} {l : Ledger}

theorem read_of_holdsMeta {dir : RunDir} {state : String} {version : Nat}
    (h : HoldsMeta True (some dir) state version) (slug : String) :
    ∃ m, Disk.readMeta slug dir = .ok (some m) ∧
      (⟨m.state, m.status, m.version⟩ : Record) = ⟨state, "active", version⟩ := by
  obtain ⟨m, hm, hstate, hversion, ⟨n, hn⟩, hplain⟩ := h
  obtain ⟨hs, hactive⟩ := hplain trivial
  rw [Option.some.injEq] at hm
  obtain ⟨m', hread, hstatus', hstate', hversion', -⟩ := RunMeta.read_write hversion hn
    (by rw [hactive]; decide) (by rw [hstate]; exact hs) slug
  refine ⟨m', ?_, ?_⟩
  · rw [hm, Disk.readMeta]
    simp only [hread]
  · rw [hstate', hstatus', hversion', hactive, hstate]

theorem served_of_active {slug state : String} {version : Nat}
    (h : HoldsMeta True (d.active slug) state version) :
    served d slug = some ⟨state, "active", version⟩ := by
  cases hdir : d.active slug with
  | none =>
      obtain ⟨m, hm, -⟩ := h
      rw [hdir] at hm
      cases hm
  | some dir =>
      rw [hdir] at h
      obtain ⟨m, hread, hm⟩ := read_of_holdsMeta h slug
      rw [served, Disk.getRun, hdir]
      simp only [hread, hm]

theorem served_of_archive {slug state : String} {version : Nat} (hnone : d.active slug = none)
    (h : HoldsMeta True (d.archive slug) state version) :
    served d slug = some ⟨state, "active", version⟩ := by
  cases hdir : d.archive slug with
  | none =>
      obtain ⟨m, hm, -⟩ := h
      rw [hdir] at hm
      cases hm
  | some dir =>
      rw [hdir] at h
      obtain ⟨m, hread, hm⟩ := read_of_holdsMeta h slug
      rw [served, Disk.getRun, hnone, hdir]
      simp only [hread, hm]

theorem served_of_dirs {slug : String} {t : Track} (h : DirsAgree True d slug t) :
    served d slug = t.served := by
  rw [Track.served, Track.record]
  cases hp : t.phase with
  | absent =>
      rw [served, Disk.getRun, h.inactive (fun state version heq => by rw [hp] at heq; cases heq),
        h.absent hp]
      rfl
  | active state version => exact served_of_active (h.active _ _ hp)
  | archived state version =>
      exact served_of_archive (h.inactive fun state version heq => by rw [hp] at heq; cases heq)
        (h.archived _ _ hp)

theorem served_congr {d' : Disk} {slug : String}
    (h : d'.active slug = d.active slug ∧ d'.archive slug = d.archive slug) :
    served d' slug = served d slug := by
  rw [served, served, Disk.getRun, Disk.getRun, h.1, h.2]

def placed (writes : List Write) : Bool := writes.any Write.writesMeta

/-- When the metadata agrees with the recovered snapshot although the operation
was cut after these writes. -/
def Op.AgreesWhen (t : Track) (passed : List Write) : Op → Prop
  | .create _ _ _ _ _ _ =>
      if logged passed then t.stored = 0 else t.phase = .absent ∧ placed passed = false
  | .update _ toState _ _ _ _ =>
      placed passed = true ∨ (renamed passed = false ∧ t.Settled ∧
        (logged passed = true → ∃ version, t.phase = .active toState version))
  | .archive _ _ _ _ => logged passed = false ∧ t.Settled

section Cut

variable {t : Track} {op : Op} {entry : WalEntry} {data : SnapEntry} {ws : List Write}

/-- Writes that are not about the directories of the slug may be cut. -/
theorem served_take_append (xs : List Write) {ys : List Write} {slug : String} {k : Nat}
    (hk : xs.length ≤ k) (hys : ∀ w ∈ ys, ¬ w.touches slug) (d : Disk) :
    served (d.performAll ((xs ++ ys).take k)) slug = served (d.performAll (xs ++ ys)) slug := by
  have htake : (xs ++ ys).take k = xs ++ ys.take (k - xs.length) := by
    rw [List.take_append, List.take_of_length_le hk]
  rw [htake, performAll_append, performAll_append]
  rw [served_congr (performAll_dirs_other (fun w hw => hys w (List.mem_of_mem_take hw)) _),
    served_congr (performAll_dirs_other hys _)]

/-- Until the metadata is written a created run has an empty directory. -/
theorem create_served {title : String} {profile : ProductProfile} {slug : String}
    {named : slug ≠ ""} {now walTime : DateTime}
    (h : Taken digest True d t (.create title profile slug named now walTime) entry data ws)
    (hdirs : DirsAgree True d slug t) (k : Nat) :
    served (d.performAll (ws.take k)) slug =
      if placed (ws.take k) then
        (t.after (.create title profile slug named now walTime)).served
      else if k = 0 then t.served else none := by
  have hfull := served_of_dirs (h.dirs hdirs)
  cases h with
  | @create _ _ _ _ _ _ initial m _ hinitial hinactive hm =>
      obtain _ | _ | k := k
      · exact served_of_dirs hdirs
      · have hbare : (d.performAll [.makeDir slug]).active slug = some {} := by
          simp [Disk.performAll, Disk.perform, hdirs.inactive hinactive]
        rw [List.take_succ_cons, List.take_zero, served, Disk.getRun, hbare]
        rfl
      · rw [← hfull]
        refine (served_take_append [.makeDir slug, .writeMeta slug m.write]
          (Nat.le_add_left 2 k) ?_ d).trans (if_pos rfl).symm
        simp [appendWal, Write.touches]

theorem update_served {slug toState : String} {profile : Option ProductProfile}
    {overrides : List Override} {now walTime : DateTime}
    (h : Taken digest True d t (.update slug toState profile overrides now walTime) entry data ws)
    (hdirs : DirsAgree True d slug t) (k : Nat) :
    served (d.performAll (ws.take k)) slug =
      if placed (ws.take k) then
        (t.after (.update slug toState profile overrides now walTime)).served
      else t.served := by
  have hfull := served_of_dirs (h.dirs hdirs)
  have hbefore := served_of_dirs hdirs
  cases h with
  | update => match k with
    | 0 | 1 | 2 | 3 => exact hbefore
    | k + 4 =>
        rw [List.take_of_length_le (Nat.le_add_left 4 k), ← hfull]
        exact (if_pos rfl).symm

theorem served_after_archive {slug : String} {now entryTime walTime : DateTime} :
    (t.after (.archive slug now entryTime walTime)).served = t.served := by
  rw [Track.after]
  cases hp : t.phase with
  | absent => rfl
  | active state version => simp [Track.served, Track.record, hp]
  | archived state version => rfl

theorem archive_served {slug : String} {now entryTime walTime : DateTime}
    (h : Taken digest True d t (.archive slug now entryTime walTime) entry data ws)
    (hdirs : DirsAgree True d slug t) (k : Nat) :
    served (d.performAll (ws.take k)) slug = t.served := by
  have hfull := served_of_dirs (h.dirs hdirs)
  have hbefore := served_of_dirs hdirs
  rw [Op.slug, served_after_archive] at hfull
  cases h with
  | @archive _ _ _ _ state version _ hphase =>
      have hrest : ∀ w ∈ [Write.writeTmp (d.loadSnapshot.update slug data), .renameTmp,
          appendWal digest (.archive slug entryTime.isoformat) walTime], ¬ w.touches slug := by
        simp [appendWal, Write.touches]
      by_cases hold : (d.archive slug).isSome = true
      · rw [if_pos hold] at hfull ⊢
        obtain _ | _ | k := k
        · exact hbefore
        · have hactive : (d.performAll [.removeArchive slug]).active slug = d.active slug := rfl
          rw [← hbefore, served_of_active (hdirs.active _ _ hphase)]
          exact served_of_active (hactive ▸ hdirs.active _ _ hphase)
        · rw [← hfull]
          exact served_take_append [.removeArchive slug, .moveToArchive slug]
            (Nat.le_add_left 2 k) hrest d
      · rw [if_neg hold] at hfull ⊢
        obtain _ | k := k
        · exact hbefore
        · rw [← hfull]
          exact served_take_append [.moveToArchive slug] (Nat.le_add_left 1 k) hrest d

/-- The order in which an update writes. -/
theorem update_order {slug toState : String} {profile : Option ProductProfile}
    {overrides : List Override} {now walTime : DateTime}
    (h : Taken digest True d t (.update slug toState profile overrides now walTime) entry data ws)
    (k : Nat) : (placed (ws.take k) = true → renamed (ws.take k) = true) ∧
      (renamed (ws.take k) = true → logged (ws.take k) = true) := by
  cases h with
  | update => match k with
    | 0 | 1 | 2 | 3 =>
        simp [logged, renamed, placed, Write.logs, Write.renames, Write.writesMeta, appendWal]
    | k + 4 => exact ⟨fun _ => rfl, fun _ => rfl⟩

theorem create_order {title : String} {profile : ProductProfile} {slug : String}
    {named : slug ≠ ""} {now walTime : DateTime}
    (h : Taken digest True d t (.create title profile slug named now walTime) entry data ws)
    (k : Nat) : (logged (ws.take k) = true → placed (ws.take k) = true) ∧
      (k = 0 → placed (ws.take k) = false) := by
  cases h with
  | create =>
      obtain _ | _ | _ | k := k
      · simp [logged, placed]
      · simp [logged, placed, Write.logs, Write.writesMeta]
      · simp [logged, placed, Write.logs]
      · exact ⟨fun _ => rfl, fun h => absurd h (Nat.succ_ne_zero _)⟩

/-- The cuts of an operation after which metadata and snapshot agree. -/
theorem Taken.agreesWhen_iff (h : Taken digest True d t op entry data ws)
    (hdirs : DirsAgree True d op.slug t) (k : Nat) :
    served (d.performAll (ws.take k)) op.slug =
        (t.cut (t.after op) (logged (ws.take k)) (renamed (ws.take k))).recovered ↔
      op.AgreesWhen t (ws.take k) := by
  cases op with
  | create title profile slug named now walTime =>
      obtain ⟨hplaced, hzero⟩ := create_order h k
      rw [Op.slug, create_served h hdirs, Op.AgreesWhen]
      cases h with
      | @create _ _ _ _ _ _ initial m _ hinitial hinactive hm =>
          generalize renamed (List.take k _) = r
          generalize logged (List.take k _) = l at hplaced ⊢
          generalize placed (List.take k _) = p at hplaced hzero ⊢
          cases l with
          | true =>
              have hstored : ((t.cut (t.after (.create title profile slug named now walTime)) true
                  r).stored) = t.stored := by
                rw [Track.cut, Track.after]
                exact ite_self _
              rw [hplaced rfl, if_pos rfl, if_pos rfl, Track.served, Track.recovered,
                Track.cut_logged, hstored, Track.record, Track.after]
              simp [eq_comm]
          | false =>
              rw [Track.recovered, Track.cut_not_logged]
              cases hp : t.phase with
              | absent =>
                  cases p with
                  | true => simp [Track.served, Track.record, Track.after, hp]
                  | false => simp [Track.served, Track.record, hp]
              | active state version => exact absurd hp (hinactive state version)
              | archived state version =>
                  cases p with
                  | true => simp [Track.served, Track.record, Track.after, hp]
                  | false =>
                      by_cases hk : k = 0
                      · simp [Track.served, Track.record, hp, hk]
                      · simp [Track.record, hp, hk]
  | update slug toState profile overrides now walTime =>
      obtain ⟨hplaced, hrenamed⟩ := update_order h k
      rw [Op.slug, update_served h hdirs, Op.AgreesWhen]
      cases h with
      | @update _ _ _ _ _ _ state fromState version _ _ hphase =>
          generalize renamed (List.take k _) = r at hplaced hrenamed ⊢
          generalize logged (List.take k _) = l at hrenamed ⊢
          generalize placed (List.take k _) = p at hplaced ⊢
          have hsettled : t.Settled ↔ version = t.stored := by
            rw [Track.Settled, hphase]
            simp
          cases p with
          | true =>
              rw [hplaced rfl, hrenamed (hplaced rfl)]
              simp [Track.served, Track.recovered, Track.record, Track.after, Track.cut, hphase]
          | false =>
              cases r with
              | true =>
                  rw [hrenamed rfl]
                  simp [Track.served, Track.recovered, Track.record, Track.after, Track.cut, hphase]
              | false =>
                  cases l with
                  | true =>
                      simp [Track.served, Track.recovered, Track.record, Track.after, Track.cut,
                        hphase, hsettled, and_comm]
                  | false =>
                      simp [Track.served, Track.recovered, Track.record, Track.cut, hphase, hsettled]
  | archive slug now entryTime walTime =>
      rw [Op.slug, archive_served h hdirs, Op.AgreesWhen]
      cases h with
      | @archive _ _ _ _ state version _ hphase =>
          have hstored : ∀ l r, (t.cut (t.after (.archive slug now entryTime walTime)) l r).stored =
              t.stored := by
            intro l r
            rw [Track.cut, Track.after, hphase]
            exact ite_self _
          have hsettled : t.Settled ↔ version = t.stored := by
            rw [Track.Settled, hphase]
            simp
          rw [Track.recovered, hstored, hsettled]
          generalize renamed (List.take k _) = r
          generalize logged (List.take k _) = l
          cases l with
          | true =>
              rw [Track.cut_logged]
              simp [Track.served, Track.record, Track.after, hphase]
          | false =>
              rw [Track.cut_not_logged]
              simp [Track.served, Track.record, hphase]

end Cut

/-- After recovery the metadata and the snapshot tell the same of every run. -/
def ServedAgrees (digest : WalEntry → String) (ops : List Op) (op : Op) (k : Nat) : Prop :=
  ∀ slug, served ((crash digest ops op k).recover digest).2 slug =
    recovered digest (crash digest ops op k) slug

theorem served_recover (d : Disk) (slug : String) : served (d.recover digest).2 slug = served d slug :=
  served_congr ⟨rfl, rfl⟩

/-- A run that was archived is still active in its metadata. -/
def archiveA : Op := .archive "a" (atMinute 2) (atMinute 3) (atMinute 4)

theorem archiveA_plain : ∀ o ∈ [startA] ++ [archiveA], o.plain := by
  have hstart : startA.plain := by
    intro initial hinitial
    cases hinitial
    decide
  simpa [archiveA, Op.plain] using hstart

theorem ticking_archiveA : Ticking ([startA] ++ [archiveA]) := by
  refine List.pairwise_pair.mpr ?_
  decide

theorem archiveA_served : ¬ ServedAgrees (fun _ => "") [startA] archiveA 4 := by
  intro h
  have ha := h "a"
  revert ha
  decide +kernel

end Prodinamik.Runs
