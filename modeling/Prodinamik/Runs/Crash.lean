import Prodinamik.Runs.Ledger

namespace Prodinamik.Runs

open Machine

/-- A key that is missing counts as the default that the engine starts with. -/
def SnapEntry.record (e : SnapEntry) : Record :=
  ⟨e.state.getD "", e.status.getD "", e.version.getD 0⟩

def recovered (digest : WalEntry → String) (d : Disk) (slug : String) : Option Record :=
  ((d.recover digest).1.lookup slug).map SnapEntry.record

def Phase.version : Phase → Nat
  | .absent => 0
  | .active _ version => version
  | .archived _ version => version

/-- What recovery finds of a run: its version is the one of the snapshot. -/
def Track.recovered (t : Track) : Option Record :=
  t.record.map fun r => { r with version := t.stored }

theorem Track.record_some {t : Track} (h : t.phase ≠ .absent) :
    ∃ r, t.record = some r ∧ r.version = t.phase.version := by
  rw [Track.record]
  cases hp : t.phase with
  | absent => exact absurd hp h
  | active state version => exact ⟨_, rfl, rfl⟩
  | archived state version => exact ⟨_, rfl, rfl⟩

theorem Track.recovered_eq_record (t : Track) :
    t.recovered = t.record ↔ t.phase = .absent ∨ t.phase.version = t.stored := by
  by_cases hp : t.phase = .absent
  · refine iff_of_true ?_ (Or.inl hp)
    rw [Track.recovered, Track.record, hp]
    rfl
  · obtain ⟨r, hr, hv⟩ := t.record_some hp
    rw [Track.recovered, hr, Option.map_some, Option.some.injEq, or_iff_right hp]
    constructor
    · intro h
      rw [← h] at hv
      exact (Int.ofNat_inj.mp hv).symm
    · intro h
      rw [h] at hv
      rw [← hv]

variable {digest : WalEntry → String} {plain : Prop} {d : Disk} {l : Ledger}

theorem recovered_of_logs {slug : String} {t : Track}
    (hslugs : ∀ entry ∈ d.entries digest, entry.slug ≠ "")
    (h : LogsAgree d.loadSnapshot (d.entries digest) slug t) :
    recovered digest d slug = t.recovered := by
  rw [recovered, Disk.recover_fst, WalEntry.foldl_replay_lookup hslugs]
  by_cases hp : t.phase = .absent
  · obtain ⟨hof, hlookup⟩ := h.absent hp
    rw [if_pos hof, hlookup, Track.recovered, Track.record, hp]
    rfl
  · obtain ⟨r, hr, -⟩ := t.record_some hp
    obtain ⟨hstate, hstatus⟩ := h.said r hr
    have hof : WalEntry.ofSlug (d.entries digest) slug ≠ [] := by
      intro hnil
      rw [WalEntry.dataOf, hnil] at hstate
      cases hstate
    have hversion : (((d.loadSnapshot.lookup slug).getD {}).update
        (WalEntry.dataOf (d.entries digest) slug)).version.getD 0 = t.stored := by
      rw [SnapEntry.update, WalEntry.dataOf_version]
      exact h.stored
    rw [if_neg hof, Track.recovered, hr, Option.map_some, Option.map_some, SnapEntry.record,
      hversion, SnapEntry.update, hstate, hstatus]
    rfl

theorem slugs_of_taken (h : Consistent digest plain d l) {op : Op} {entry : WalEntry}
    {data : SnapEntry} {ws : List Write}
    (htaken : Taken digest plain d (l op.slug) op entry data ws)
    (hnew : ∀ name ∈ d.wal, name < op.walTime.walName) (k : Nat) :
    ∀ e ∈ (d.performAll (ws.take k)).entries digest, e.slug ≠ "" := by
  intro e he
  rw [(htaken.progress hnew k).1] at he
  split at he
  · rw [List.mem_append, List.mem_singleton] at he
    obtain he | rfl := he
    · exact h.slugs e he
    · rw [htaken.slug]
      exact htaken.named h.slugs (h.logs op.slug)
  · exact h.slugs e he

/-- Recovery after a cut, slug by slug. -/
theorem recovered_cut (h : Consistent digest plain d l) {op : Op} (hplain : plain → op.plain)
    (hnew : ∀ name ∈ d.wal, name < op.walTime.walName) (k : Nat) (slug : String) :
    recovered digest (d.performAll ((op.writes digest d).take k)) slug =
      ((l slug).cut (l.after digest d op slug) (logged ((op.writes digest d).take k))
        (renamed ((op.writes digest d).take k))).recovered := by
  obtain hnil | ⟨entry, data, htaken⟩ := taken h op hplain
  · rw [Ledger.after, hnil, List.take_nil]
    exact recovered_of_logs h.slugs (h.logs slug)
  · have hslugs := slugs_of_taken h htaken hnew k
    have hl : l.after digest d op = Function.update l op.slug ((l op.slug).after op) := by
      rw [Ledger.after, if_neg]
      rw [List.isEmpty_iff]
      exact htaken.ne_nil
    rw [hl]
    by_cases hs : slug = op.slug
    · rw [hs, Function.update_self]
      exact recovered_of_logs hslugs (htaken.logs (h.logs op.slug) hnew k)
    · rw [Function.update_of_ne hs, recovered_of_logs hslugs
        (htaken.logs_other hs (h.logs slug) hnew k), Track.cut, ite_self, ite_self]

section CrashSafe

variable (digest : WalEntry → String) (ops : List Op) (op : Op) (k : Nat)

def before : Ledger := (Ledger.run digest ops).2

def after : Ledger := (before digest ops).after digest (runOps digest {} ops) op

/-- The writes of the last operation that the crash let through. -/
def passed : List Write := (op.writes digest (runOps digest {} ops)).take k

/-- All or nothing, and all once the entry is in the WAL. -/
def CrashSafe : Prop :=
  ∀ slug, (recovered digest (crash digest ops op k) slug = (before digest ops slug).record ∨
      recovered digest (crash digest ops op k) slug = (after digest ops op slug).record) ∧
    (logged (passed digest ops op k) = true →
      recovered digest (crash digest ops op k) slug = (after digest ops op slug).record)

end CrashSafe

/-- The version in the snapshot is the version of the run: the one that counts
once the entry is in the WAL, the one before until then. A transition of a state
to itself may also be told from the snapshot before it is logged. -/
def VersionKept (before after : Track) (logged renamed : Bool) : Prop :=
  let cut := before.cut after logged renamed
  cut.phase = .absent ∨ cut.phase.version = cut.stored ∨
    (logged = false ∧ ∃ state version, before.phase = .active state version ∧
      after.phase = .active state cut.stored)

theorem Track.cut_logged (before after : Track) (renamed : Bool) :
    (before.cut after true renamed).record = after.record :=
  Track.record_phase rfl

theorem Track.cut_not_logged (before after : Track) (renamed : Bool) :
    (before.cut after false renamed).record = before.record :=
  Track.record_phase rfl

/-- Before the entry is logged an update of a state to itself is all that can be
recovered as if it had happened. -/
theorem recovered_eq_after {t t' : Track} {op : Op} (h : t' = t ∨ t' = t.after op) (renamed : Bool)
    (hne : (t.cut t' false renamed).recovered ≠ t.record) :
    (t.cut t' false renamed).recovered = t'.record ↔
      ∃ state version, t.phase = .active state version ∧
        t'.phase = .active state (t.cut t' false renamed).stored := by
  have hcut : (t.cut t' false renamed).recovered =
      t.record.map fun r => { r with version := (t.cut t' false renamed).stored } := by
    rw [Track.recovered, Track.cut_not_logged]
  rw [hcut] at hne ⊢
  generalize (t.cut t' false renamed).stored = n at hne ⊢
  obtain rfl | rfl := h
  · refine iff_of_false hne ?_
    rintro ⟨state, version, h1, h2⟩
    rw [h1] at h2
    cases h2
    exact hne (by rw [Track.record, h1]; rfl)
  · cases hp : t.phase with
    | absent => exact absurd (by rw [Track.record, hp]; rfl) hne
    | active state version =>
        simp only [Track.record, hp, Option.map_some]
        cases hp' : (t.after op).phase with
        | absent => simp
        | active state' version' =>
            simp only [Option.some.injEq, Record.mk.injEq, true_and, Phase.active.injEq]
            constructor
            · rintro ⟨rfl, hv⟩
              exact ⟨state, version, ⟨rfl, rfl⟩, rfl, (Int.ofNat_inj.mp hv).symm⟩
            · rintro ⟨s, v, ⟨rfl, rfl⟩, rfl, rfl⟩
              exact ⟨rfl, rfl⟩
        | archived state' version' => simp
    | archived state version =>
        simp only [Track.record, hp, Option.map_some]
        cases hp' : (t.after op).phase with
        | absent => simp
        | active state' version' => simp
        | archived state' version' =>
            have hsame : (t.after op).phase = t.phase := by
              cases op with
              | create => simp [Track.after] at hp'
              | update => simp [Track.after, hp]
              | archive => simp [Track.after, hp]
            rw [hsame, hp] at hp'
            cases hp'
            exact iff_of_false (fun heq => hne (by rw [Track.record, hp]; exact heq)) (by simp)

theorem versionKept_iff {t t' : Track} {op : Op} (h : t' = t ∨ t' = t.after op)
    (logged renamed : Bool) :
    VersionKept t t' logged renamed ↔
      ((t.cut t' logged renamed).recovered = t.record ∨
          (t.cut t' logged renamed).recovered = t'.record) ∧
        (logged = true → (t.cut t' logged renamed).recovered = t'.record) := by
  have hrecord := (t.cut t' logged renamed).recovered_eq_record
  rw [VersionKept]
  cases logged with
  | true =>
      rw [Track.cut_logged] at hrecord
      constructor
      · rintro (h | h | ⟨h, -⟩)
        · exact ⟨Or.inr (hrecord.mpr (Or.inl h)), fun _ => hrecord.mpr (Or.inl h)⟩
        · exact ⟨Or.inr (hrecord.mpr (Or.inr h)), fun _ => hrecord.mpr (Or.inr h)⟩
        · cases h
      · rintro ⟨-, h⟩
        obtain h | h := hrecord.mp (h rfl)
        · exact Or.inl h
        · exact Or.inr (Or.inl h)
  | false =>
      rw [Track.cut_not_logged] at hrecord
      rw [← or_assoc, ← hrecord, and_iff_left (fun h => Bool.noConfusion h)]
      by_cases heq : (t.cut t' false renamed).recovered = t.record
      · exact iff_of_true (Or.inl heq) (Or.inl heq)
      · rw [or_iff_right heq, or_iff_right heq, recovered_eq_after h renamed heq]
        exact and_iff_right rfl

theorem after_eq (digest : WalEntry → String) (ops : List Op) (op : Op) (slug : String) :
    after digest ops op slug = before digest ops slug ∨
      after digest ops op slug = (before digest ops slug).after op := by
  rw [after, Ledger.after]
  split
  · exact Or.inl rfl
  · by_cases hs : slug = op.slug
    · rw [hs, Function.update_self]
      exact Or.inr rfl
    · rw [Function.update_of_ne hs]
      exact Or.inl rfl

/-- The disk when the last operation starts. -/
theorem before_consistent (digest : WalEntry → String) (plain : Prop) {ops : List Op} {op : Op}
    (hplain : plain → ∀ o ∈ ops, o.plain)
    (hticking : Ticking (ops ++ [op])) :
    Consistent digest plain (runOps digest {} ops) (before digest ops) ∧
      ∀ name ∈ (runOps digest {} ops).wal, name < op.walTime.walName := by
  obtain ⟨hbefore, -, hlast⟩ := List.pairwise_append.mp hticking
  obtain ⟨h, hnames⟩ := run_consistent digest hplain hbefore
  rw [Ledger.run_fst] at h hnames
  refine ⟨h, fun name hname => ?_⟩
  obtain ⟨o, ho, rfl⟩ := hnames name hname
  exact (DateTime.walName_lt _ _).mpr (hlast o ho op List.mem_cons_self)

def atMinute (n : Nat) : DateTime := DateTime.atMinute default n

def article : StateMachine where
  config :=
    { states := [("draft", .once "draft" .initial), ("published", .once "published" .terminal)]
      transitions := [{ fromState := "draft", toState := "published" }]
      nodup := by decide }
  accepted := by decide

def articles : ProductProfile := ⟨"article", some article⟩

theorem a_named : "a" ≠ "" := by decide

def startA : Op := .create "A" articles "a" a_named (atMinute 0) (atMinute 1)

def publishA : Op := .update "a" "published" (some articles) [] (atMinute 2) (atMinute 3)

theorem ticking_publishA : Ticking ([startA] ++ [publishA]) := by
  refine List.pairwise_pair.mpr ?_
  decide

theorem publishA_overtaken : ¬ CrashSafe (fun _ => "") [startA] publishA 1 := by
  intro h
  have ha := (h "a").2
  revert ha
  decide +kernel

end Prodinamik.Runs
