import Prodinamik.Events.Durable

namespace Prodinamik.Events

open Lib.Run

/-- The sequence numbers of the events that are written. -/
def numbers : List Write → List Nat
  | [] => []
  | .event sequence _ :: rest => sequence :: numbers rest
  | _ :: rest => numbers rest

theorem numbers_append (ws ws' : List Write) : numbers (ws ++ ws') = numbers ws ++ numbers ws' := by
  induction ws with
  | nil => rfl
  | cons w ws ih =>
      cases w with
      | event n f => exact congrArg (n :: ·) ih
      | index entries => exact ih
      | unlink n => exact ih

theorem numbers_unlinks (sequences : List Nat) : numbers (sequences.map .unlink) = [] := by
  induction sequences with
  | nil => rfl
  | cons n rest ih => exact ih

/-- A call assigns the numbers that follow the counter and moves it past them. -/
def Counts {α : Type} (last : Nat) (o : Outcome α) : Prop :=
  ∃ m, numbers o.writes = List.range' (last + 1) m ∧ o.lastSequence = last + m

theorem counts_nothing {α : Type} {last : Nat} {o : Outcome α} (hnone : numbers o.writes = [])
    (hlast : o.lastSequence = last) : Counts last o :=
  ⟨0, hnone, hlast⟩

theorem EventStore.counts_append (s : EventStore) (d : Draft) : Counts s.lastSequence (s.append d) := by
  rw [append]
  split
  · exact ⟨1, rfl, rfl⟩
  · exact counts_nothing rfl rfl

theorem numbers_appendLoop {ds : List Draft} (hds : ∀ d ∈ ds, d.serializable) (seq : Nat)
    (index : List Nat) :
    numbers (EventStore.appendLoop ds seq index).1 = List.range' seq ds.length := by
  induction ds generalizing seq index with
  | nil => rfl
  | cons d ds ih =>
      rw [EventStore.appendLoop, if_pos (hds d List.mem_cons_self)]
      exact congrArg (seq :: ·) (ih (fun d hd => hds d (List.mem_cons_of_mem _ hd)) _ _)

/-- All events of a batch can be serialized or already the first one cannot. -/
def Serializable (ds : List Draft) : Prop :=
  (∀ d ∈ ds.head?, d.serializable = false) ∨ ∀ d ∈ ds, d.serializable

theorem EventStore.counts_appendMany (s : EventStore) {ds : List Draft} (hds : Serializable ds) :
    Counts s.lastSequence (s.appendMany ds) := by
  obtain hfailed | hall := hds
  · obtain ⟨hwrites, hlast, -⟩ := s.appendMany_failed hfailed
    exact counts_nothing (by rw [hwrites]; rfl) hlast
  · obtain rfl | hne := eq_or_ne ds []
    · exact counts_nothing rfl rfl
    · rw [s.appendMany_ok hne hall]
      refine ⟨ds.length, ?_, rfl⟩
      rw [numbers_append, numbers_appendLoop hall]
      exact List.append_nil _

theorem EventStore.counts_purge (policy : EventRetentionPolicy) (s : EventStore) (now : Int) :
    Counts s.lastSequence (s.purge policy now) := by
  rw [purge]
  cases (purgeLoop policy s.dir now s.index).2.2 with
  | error err => exact counts_nothing (numbers_unlinks _) rfl
  | ok u =>
      refine counts_nothing ?_ rfl
      rw [numbers_append, numbers_unlinks]
      split <;> rfl

theorem numbers_removeDetails (dir : EventDir) (es : List Event) (index : List Nat) :
    numbers (EventStore.removeDetails dir es index).1 = [] := by
  induction es generalizing index with
  | nil => rfl
  | cons e es ih =>
      have hunlink : numbers (if (dir.files.lookup e.sequence).isSome then
          [Write.unlink e.sequence] else []) = [] := by
        split <;> rfl
      rw [EventStore.removeDetails]
      split
      · rw [numbers_append, hunlink]
        exact ih _
      · exact hunlink

theorem EventStore.counts_compact (policy : EventRetentionPolicy) (s : EventStore) (slug : String)
    (now : Int) (nowText : String) : Counts s.lastSequence (s.compact policy slug now nowText) := by
  rw [compact]
  cases oldEvents policy s.dir (now - EventRetentionPolicy.compactionAge) s.index with
  | error err => exact counts_nothing rfl rfl
  | ok old =>
      simp only
      by_cases hfew : old.length < EventRetentionPolicy.compactionBatch
      · rw [if_pos hfew]
        exact counts_nothing rfl rfl
      · rw [if_neg hfew]
        split
        · exact counts_nothing (numbers_removeDetails _ _ _) rfl
        · refine ⟨1, ?_, rfl⟩
          rw [numbers_append, numbers_append, numbers_removeDetails]
          rfl

/-- A call on the directory or a reopening of it. -/
inductive Request
  | call (c : Call)
  | compact (slug : String) (now : Int) (nowText : String)
  | reopen
  deriving DecidableEq, Repr

/-- A store and every number that was assigned, in this order. -/
structure Numbering where
  store : EventStore
  assigned : List Nat := []

namespace Numbering

variable (policy : EventRetentionPolicy)

def start (archived : List Nat) : Numbering where
  store := .init { archived := archived }

def afterOutcome {α : Type} (s : Numbering) (o : Outcome α) : Numbering where
  store := s.store.after o
  assigned := s.assigned ++ numbers o.writes

def step (s : Numbering) : Request → Numbering
  | .call c => s.afterOutcome (c.outcome policy s.store)
  | .compact slug now nowText => s.afterOutcome (s.store.compact policy slug now nowText)
  | .reopen => { s with store := .init s.store.dir }

/-- No number is assigned twice and a later one is greater. -/
def Increasing (s : Numbering) : Prop := s.assigned.Pairwise (· < ·)

/-- A batch does not break off after its first event, and where the directory is
reopened, there is a file of the newest number or a later one. -/
def Kept (s : Numbering) : Request → Prop
  | .call (.appendMany ds) => Serializable ds
  | .reopen => ∀ n ∈ s.assigned.getLast?,
      ∃ m ∈ s.store.dir.files.keys ++ s.store.dir.archived, n ≤ m ∧ m < 10 ^ 10
  | _ => True

structure Inv (s : Numbering) : Prop where
  increasing : s.Increasing
  bound : ∀ n ∈ s.assigned, n ≤ s.store.lastSequence

theorem inv_afterOutcome {α : Type} {s : Numbering} (h : s.Inv) {o : Outcome α}
    (ho : Counts s.store.lastSequence o) : (s.afterOutcome o).Inv := by
  obtain ⟨m, hnumbers, hlast⟩ := ho
  rw [afterOutcome, hnumbers]
  constructor
  · refine List.pairwise_append.mpr ⟨h.increasing, List.pairwise_lt_range', fun n hn k hk => ?_⟩
    have hle := h.bound n hn
    have hk := List.mem_range'_1.mp hk
    omega
  · intro n hn
    show n ≤ o.lastSequence
    rw [hlast]
    obtain hn | hn := List.mem_append.mp hn
    · exact (h.bound n hn).trans (Nat.le_add_right _ _)
    · have hn := List.mem_range'_1.mp hn
      omega

theorem counts_call {s : EventStore} {c : Call}
    (hc : ∀ ds, c = .appendMany ds → Serializable ds) :
    Counts s.lastSequence (c.outcome policy s) := by
  cases c with
  | append d => exact s.counts_append d
  | appendMany ds => exact s.counts_appendMany (hc ds rfl)
  | purge now => exact s.counts_purge policy now

theorem inv_reopen {s : Numbering} (h : s.Inv) (hkept : s.Kept .reopen) :
    (s.step policy .reopen).Inv := by
  refine ⟨h.increasing, fun n hn => ?_⟩
  have hne := List.ne_nil_of_mem hn
  have hle : n ≤ s.assigned.getLast hne := (h.increasing.imp Nat.le_of_lt).rel_getLast hn
  obtain ⟨m, hm, hmle, hten⟩ := hkept _ (List.getLast?_eq_some_getLast hne)
  have hload : m ≤ s.store.dir.loadLastSequence := EventDir.le_loadLastSequence hm hten
  exact hle.trans (hmle.trans hload)

theorem inv_step {s : Numbering} (h : s.Inv) {r : Request} (hr : s.Kept r) :
    (s.step policy r).Inv := by
  cases r with
  | call c => exact inv_afterOutcome h (counts_call policy fun ds hc => by cases hc; exact hr)
  | compact slug now nowText => exact inv_afterOutcome h (s.store.counts_compact policy _ _ _)
  | reopen => exact inv_reopen policy h hr

/-- The event whose file is there at the reopening is kept forever. -/
def sampleRequests : List Request :=
  [.call (.append Session.sampleDraft),
    .call (.append { event := { Session.sampleDraft.event with eventType := "state_transition" } }),
    .call (.purge (EventRetentionPolicy.days 400)), .reopen,
    .call (.appendMany [Session.sampleDraft, Session.sampleDraft])]

end Numbering

end Prodinamik.Events
