import Mathlib.Data.List.DropRight
import Prodinamik.Audit.Conservation
import Prodinamik.Lib.Grouping

namespace Prodinamik.Audit

open Lib

/-- The data of an entry, as far as it is texts. -/
abbrev AuditData := String → Option String

/-- What a replay keeps under a key: a run or a text. -/
inductive Replayed
  | run (state : String) (events : Nat) (archived : Bool)
  | text (value : String)
  deriving DecidableEq

abbrev ReplayState := String → Option Replayed

def reserved : List String := ["_degradation", "_last_prometheus"]

namespace AuditEntry

variable (e : AuditEntry AuditData)

/-- Apply an audit entry to a state dict. A text does not take the fields of a run. -/
def apply (state : ReplayState) : Option ReplayState :=
  let d := e.data
  if e.eventType = "run.created" then
    let slug := (d "slug").getD "unknown"
    some (Function.update state slug (some (.run ((d "state").getD "created") 0 false)))
  else if e.eventType = "run.transition" then
    let slug := (d "slug").getD ""
    match state slug with
    | none => some state
    | some (.text _) => none
    | some (.run current events archived) => some (Function.update state slug
        (some (.run ((d "to").getD current) (events + 1) archived)))
  else if e.eventType = "run.archived" then
    let slug := (d "slug").getD ""
    match state slug with
    | none => some state
    | some (.text _) => none
    | some (.run current events _) =>
        some (Function.update state slug (some (.run current events true)))
  else if e.eventType = "degradation.change" then
    some (Function.update state "_degradation" (some (.text ((d "to").getD ""))))
  else if e.eventType = "metric.recorded" ∧ d "prometheus" ≠ none then
    some (Function.update state "_last_prometheus" (some (.text ((d "prometheus").getD ""))))
  else some state

/-- The run that an entry is about. -/
def runSlug : Option String :=
  if e.eventType = "run.created" then some ((e.data "slug").getD "unknown")
  else if e.eventType = "run.transition" ∨ e.eventType = "run.archived" then
    some ((e.data "slug").getD "")
  else none

/-- The key that an entry is kept under. -/
def key : Option String :=
  e.runSlug.or
    (if e.eventType = "degradation.change" then some "_degradation"
    else if e.eventType = "metric.recorded" ∧ e.data "prometheus" ≠ none then
      some "_last_prometheus"
    else none)

/-- What an entry makes of what is under its key. -/
def act (kept : Option Replayed) : Option (Option Replayed) :=
  if e.eventType = "run.created" then some (some (.run ((e.data "state").getD "created") 0 false))
  else if e.eventType = "run.transition" then
    match kept with
    | none => some none
    | some (.text _) => none
    | some (.run current events archived) =>
        some (some (.run ((e.data "to").getD current) (events + 1) archived))
  else if e.eventType = "run.archived" then
    match kept with
    | none => some none
    | some (.text _) => none
    | some (.run current events _) => some (some (.run current events true))
  else if e.eventType = "degradation.change" then some (some (.text ((e.data "to").getD "")))
  else some (some (.text ((e.data "prometheus").getD "")))

theorem apply_eq (state : ReplayState) : e.apply state = keyedStep key act state e := by
  have hsame : ∀ {slug}, state slug = none → Function.update state slug none = state := by
    rintro slug hnone
    rw [← hnone, Function.update_eq_self]
  rw [apply, keyedStep, key, runSlug]
  by_cases hcreated : e.eventType = "run.created"
  · simp [hcreated, act]
  by_cases htransition : e.eventType = "run.transition"
  · simp only [hcreated, htransition, act]
    cases hslug : state ((e.data "slug").getD "") with
    | none => simp [hslug, hsame hslug]
    | some kept => cases kept <;> simp [hslug]
  by_cases harchived : e.eventType = "run.archived"
  · simp only [hcreated, htransition, harchived, act]
    cases hslug : state ((e.data "slug").getD "") with
    | none => simp [hslug, hsame hslug]
    | some kept => cases kept <;> simp [hslug]
  by_cases hchange : e.eventType = "degradation.change"
  · simp [hcreated, htransition, harchived, hchange, act]
  · by_cases hmetric : e.eventType = "metric.recorded" ∧ e.data "prometheus" ≠ none
    · simp [hcreated, htransition, harchived, hchange, hmetric, act]
    · simp [hcreated, htransition, harchived, hchange, hmetric]

end AuditEntry

/-- Replay all events to reconstruct state: none when one of them raises. -/
def AuditLog.replay (a : AuditLog AuditData) (targetState : ReplayState) : Option ReplayState :=
  a.iterAll.foldlM (fun state e => e.apply state) targetState

/-- The run goes on with this entry and does not begin anew. -/
def AuditEntry.goesOn (e : AuditEntry AuditData) : Bool := e.eventType ≠ "run.created"

/-- What the entries of a run say of it: nothing before it is created, then where
the last transition led, and how many there were, since it was last created. -/
def summary (own : List (AuditEntry AuditData)) : Option Replayed :=
  let since := own.rtakeWhile AuditEntry.goesOn
  let transitions := since.filter fun e => e.eventType = "run.transition"
  (own.rdropWhile AuditEntry.goesOn).getLast?.map fun created =>
    .run ((transitions.reverse.findSome? fun e => e.data "to").getD
        ((created.data "state").getD "created"))
      transitions.length (since.any fun e => e.eventType = "run.archived")

/-- One more entry of the run. -/
theorem summary_concat (own : List (AuditEntry AuditData)) {e : AuditEntry AuditData} {slug : String}
    (h : e.runSlug = some slug) : e.act (summary own) = some (summary (own ++ [e])) := by
  by_cases hcreated : e.eventType = "run.created"
  · have hnot : ¬ e.goesOn = true := by simp [AuditEntry.goesOn, hcreated]
    rw [AuditEntry.act.eq_def, if_pos hcreated, summary, List.rtakeWhile_concat_neg _ _ _ hnot,
      List.rdropWhile_concat_neg _ _ _ hnot, List.getLast?_concat]
    rfl
  · have hgoes : e.goesOn = true := by simp [AuditEntry.goesOn, hcreated]
    have hkind : e.eventType = "run.transition" ∨ e.eventType = "run.archived" := by
      rw [AuditEntry.runSlug, if_neg hcreated] at h
      by_contra hno
      rw [if_neg hno] at h
      cases h
    rw [AuditEntry.act.eq_def, if_neg hcreated, summary, summary,
      List.rtakeWhile_concat_pos _ _ _ hgoes, List.rdropWhile_concat_pos _ _ _ hgoes]
    generalize own.rtakeWhile AuditEntry.goesOn = since
    cases (own.rdropWhile AuditEntry.goesOn).getLast? with
    | none => rcases hkind with hkind | hkind <;> simp [hkind]
    | some created =>
        rcases hkind with hkind | hkind
        · cases hto : e.data "to" <;> simp [hkind, hto]
        · simp [hkind]

/-- A run whose entries are all about it is what its summary says. -/
theorem foldlM_act {own : List (AuditEntry AuditData)} {slug : String}
    (h : ∀ e ∈ own, e.runSlug = some slug) :
    own.foldlM (fun kept e => e.act kept) none = some (summary own) := by
  induction own using List.reverseRecOn with
  | nil => rfl
  | append_singleton own e ih =>
      rw [List.foldlM_append, ih fun x hx => h x (List.mem_append_left _ hx)]
      have hlast : e.runSlug = some slug := h e (List.mem_append_right _ (List.mem_singleton_self e))
      simpa using summary_concat own hlast

/-- Entries under a reserved key, none of which is about a run, are read without an error. -/
theorem exists_foldlM_act {es : List (AuditEntry AuditData)} (h : ∀ e ∈ es, e.runSlug = none)
    (kept : Option Replayed) : ∃ kept', es.foldlM (fun kept e => e.act kept) kept = some kept' := by
  induction es generalizing kept with
  | nil => exact ⟨kept, rfl⟩
  | cons e es ih =>
      obtain ⟨he, hes⟩ := List.forall_mem_cons.mp h
      obtain ⟨kept', hact⟩ : ∃ kept', e.act kept = some kept' := by
        rw [AuditEntry.runSlug] at he
        rw [AuditEntry.act.eq_def]
        split at he
        · cases he
        split at he
        · cases he
        · rename_i hcreated hkind
          rw [not_or] at hkind
          rw [if_neg hcreated, if_neg hkind.1, if_neg hkind.2]
          split
          · exact ⟨_, rfl⟩
          · exact ⟨_, rfl⟩
      rw [List.foldlM_cons, hact]
      exact ih hes kept'

/-- The entries about a run. -/
def about (slug : String) (es : List (AuditEntry AuditData)) : List (AuditEntry AuditData) :=
  es.filter fun e => e.runSlug = some slug

theorem replay_entries {es : List (AuditEntry AuditData)}
    (h : ∀ e ∈ es, ∀ slug, e.runSlug = some slug → slug ∉ reserved) :
    ∃ state, es.foldlM (fun state e => e.apply state) (fun _ => none) = some state ∧
      ∀ slug ∉ reserved, state slug = summary (about slug es) := by
  have hkey : ∀ slug ∉ reserved, (es.filter fun e => e.key = some slug) = about slug es := by
    intro slug hslug
    refine List.filter_congr fun e _ => decide_eq_decide.mpr ?_
    rw [AuditEntry.key]
    cases hrun : e.runSlug with
    | some slug' => rfl
    | none =>
        refine ⟨fun heq => ?_, fun heq => by cases heq⟩
        rw [Option.none_or] at heq
        have hmem : slug ∈ reserved := by
          split at heq
          · cases heq
            decide
          split at heq
          · cases heq
            decide
          · cases heq
        exact absurd hmem hslug
  have hall : ∀ k, ∃ kept, (es.filter fun e => e.key = some k).foldlM (fun kept e => e.act kept) none =
      some kept := by
    intro k
    by_cases hk : k ∈ reserved
    · refine exists_foldlM_act (fun e he => ?_) none
      obtain ⟨hmem, hek⟩ := List.mem_filter.mp he
      cases hrun : e.runSlug with
      | none => rfl
      | some slug =>
          rw [AuditEntry.key, hrun] at hek
          have hslug : slug = k := by simpa using hek
          exact absurd (hslug ▸ hk) (h e hmem slug hrun)
    · rw [hkey k hk]
      exact ⟨_, foldlM_act fun e he => of_decide_eq_true (List.mem_filter.mp he).2⟩
  choose state hstate using hall
  refine ⟨state, ?_, fun slug hslug => ?_⟩
  · have hsteps : (fun (state : ReplayState) (e : AuditEntry AuditData) => e.apply state) =
        keyedStep AuditEntry.key AuditEntry.act :=
      funext fun state => funext fun e => e.apply_eq state
    rw [hsteps]
    exact foldlM_keyedStep.mpr hstate
  · have hslug' := hstate slug
    have hown : ∀ e ∈ about slug es, e.runSlug = some slug := fun e he =>
      of_decide_eq_true (List.mem_filter.mp he).2
    rw [hkey slug hslug, foldlM_act hown] at hslug'
    exact (Option.some.inj hslug').symm

/-- As long as at most 999 segments are written, a replay of the log finds every run as
its own entries left it, whatever was rotated, compacted or started again in between. -/
theorem replay_summary (maxSegmentSize : Int) (ops : List (Op AuditData))
    (htimes : (ops.filterMap Op.time).Pairwise fun a b => a.ticks ≤ b.ticks)
    (hfits : Run.Steps History.step (fun h op => op.Fits h) (.start maxSegmentSize) ops)
    (hslugs : ∀ e ∈ (ops.foldl History.step (.start maxSegmentSize)).recorded, ∀ slug,
      e.runSlug = some slug → slug ∉ reserved) :
    let h := ops.foldl History.step (.start maxSegmentSize)
    ∃ state, h.log.replay (fun _ => none) = some state ∧
      ∀ slug ∉ reserved, state slug = summary (about slug h.recorded) := by
  have hfollows := History.follows_of_times htimes (h := .start maxSegmentSize)
    (fun _ _ e he => absurd he List.not_mem_nil)
  have hstep : ∀ (h : History AuditData) (op : Op AuditData),
      Inv h → op.Fits h ∧ op.Follows h → Inv (h.step op) :=
    fun h op hinv hop => hinv.step hop.1 hop.2
  have hrun := Run.along_of_invariant hstep (inv_start maxSegmentSize) (hfits.and hfollows)
  intro h
  have hconserved : h.log.iterAll = h.recorded := hrun.last.conserved
  rw [AuditLog.replay, hconserved]
  exact replay_entries hslugs

def flux (extra : String) (value : String) : AuditData := fun key =>
  if key = "slug" then some "flux" else if key = extra then some value else none

/-- A run that is created and moved, with a compaction and a restart in between. -/
def fluxOps : List (Op AuditData) :=
  [.record default "run.created" (flux "state" "spec") none, .compact "2001", .restart 3,
    .record default "run.transition" (flux "to" "review") none]

theorem replay_summary_flux :
    ∃ state, (fluxOps.foldl History.step (.start 10)).log.replay (fun _ => none) = some state ∧
      state "flux" = some (.run "review" 1 false) := by
  obtain ⟨state, hreplay, hstate⟩ := replay_summary 10 fluxOps (by decide)
    ⟨trivial, fun _ => by decide, trivial, fun _ => by decide, trivial, fun _ => by decide, trivial,
      fun _ => by decide, trivial⟩
    (by
      intro e he slug hslug
      have hflux : ∀ e ∈ (fluxOps.foldl History.step (.start 10)).recorded,
        e.runSlug = some "flux" := by decide +kernel
      rw [hflux e he] at hslug
      cases hslug
      decide)
  refine ⟨state, hreplay, ?_⟩
  rw [hstate "flux" (by decide)]
  decide +kernel

end Prodinamik.Audit
