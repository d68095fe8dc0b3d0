import Prodinamik.Events.EventStore
import Prodinamik.Lib.Run

namespace Prodinamik.Events

open Lib.Run

inductive Call
  | append (event : Draft)
  | appendMany (events : List Draft)
  | purge (now : Int)
  deriving DecidableEq, Repr

/-- A store and the events that were completely written and not purged. -/
structure Session where
  store : EventStore
  live : List Event := []

/-- A call runs to its end, or only the first writes of it are made and the
store is opened anew. -/
inductive Action
  | call (c : Call)
  | crash (c : Call) (writes : Nat)
  deriving DecidableEq, Repr

def Call.outcome (policy : EventRetentionPolicy) (s : EventStore) : Call → Outcome Unit
  | .append d => (s.append d).noResult
  | .appendMany ds => (s.appendMany ds).noResult
  | .purge now => (s.purge policy now).noResult

def liveAfter (live : List Event) : Write → List Event
  | .event _ (.holds e) => live ++ [e]
  | .event _ .unreadable => live
  | .index _ => live
  | .unlink sequence => live.filter fun e => e.sequence ≠ sequence

namespace Session

variable (policy : EventRetentionPolicy)

def start (archived : List Nat) : Session where
  store := .init { archived := archived }

def step (s : Session) : Action → Session
  | .call c =>
      let o := c.outcome policy s.store
      ⟨s.store.after o, o.writes.foldl liveAfter s.live⟩
  | .crash c k =>
      let writes := (c.outcome policy s.store).writes.take k
      ⟨.init (s.store.dir.performAll writes), writes.foldl liveAfter s.live⟩

/-- What is live is returned by every read that it belongs to, and nothing else is. -/
structure Durable (s : Session) : Prop where
  get : ∀ e ∈ s.live, s.store.get e.sequence = some e
  getRange : ∀ e ∈ s.live, ∀ start limit, start ≤ e.sequence →
    s.store.lastSequence + 1 - start ≤ limit → e ∈ s.store.getRange start limit
  query : ∀ e ∈ s.live, ∀ q : EventStore.Query, q.accepts e → s.store.lastSequence ≤ q.limit →
    e ∈ s.store.query q
  onlyGet : ∀ n, ∀ e ∈ s.store.get n, e ∈ s.live
  onlyGetRange : ∀ start limit, ∀ e ∈ s.store.getRange start limit, e ∈ s.live
  onlyQuery : ∀ q, ∀ e ∈ s.store.query q, e ∈ s.live

/-- A batch of which k writes are made leaves nothing half done: none is made,
or not even the first event can be serialized, or all of them are written, with
numbers of ten digits, and the index after them. -/
def WholeBatch (s : Session) (ds : List Draft) (k : Nat) : Prop :=
  k = 0 ∨ (∀ d ∈ ds.head?, d.serializable = false) ∨
    ds.length < k ∧ (∀ d ∈ ds, d.serializable) ∧ s.store.lastSequence + ds.length < 10 ^ 10

/-- No call and no crash leaves an event behind that is not in the saved index. -/
def Whole (s : Session) : Action → Prop
  | .call (.append d) => s.WholeBatch [d] 2
  | .call (.appendMany ds) => s.WholeBatch ds (ds.length + 1)
  | .crash (.append d) k => s.WholeBatch [d] k
  | .crash (.appendMany ds) k => s.WholeBatch ds k
  | _ => True

/-- The files are those of the live events. -/
structure FilesInv (dir : EventDir) (live : List Event) : Prop where
  files : ∀ n f, dir.files.lookup n = some f ↔ ∃ e ∈ live, e.sequence = n ∧ f = .holds e
  numbered : ∀ e ∈ live, 1 ≤ e.sequence ∧ e.sequence < 10 ^ 10

def Covers (index : List Nat) (live : List Event) : Prop := ∀ e ∈ live, e.sequence ∈ index

structure Inv (s : Session) : Prop where
  files : FilesInv s.store.dir s.live
  saved : s.store.dir.index = some (.holds s.store.index)
  covers : Covers s.store.index s.live
  bound : ∀ e ∈ s.live, e.sequence ≤ s.store.lastSequence

theorem FilesInv.event {dir : EventDir} {live : List Event} (h : FilesInv dir live) {e : Event}
    (hnew : ∀ e' ∈ live, e'.sequence ≠ e.sequence)
    (hnumber : 1 ≤ e.sequence ∧ e.sequence < 10 ^ 10) :
    FilesInv (dir.perform (.event e.sequence (.holds e))) (live ++ [e]) := by
  refine ⟨fun n f => ?_, fun e' he' => ?_⟩
  · simp only [EventDir.perform, List.mem_append, List.mem_singleton]
    by_cases hn : n = e.sequence
    · subst hn
      rw [AList.lookup_insert, Option.some_inj]
      constructor
      · rintro rfl
        exact ⟨e, .inr rfl, rfl, rfl⟩
      · rintro ⟨e', he' | rfl, hsame, rfl⟩
        · exact absurd hsame (hnew e' he')
        · rfl
    · rw [AList.lookup_insert_ne hn, h.files]
      constructor
      · rintro ⟨e', he', hsame, hf⟩
        exact ⟨e', .inl he', hsame, hf⟩
      · rintro ⟨e', he' | rfl, hsame, hf⟩
        · exact ⟨e', he', hsame, hf⟩
        · exact absurd hsame.symm hn
  · obtain he' | he' := List.mem_append.mp he'
    · exact h.numbered e' he'
    · rw [List.mem_singleton.mp he']
      exact hnumber

theorem FilesInv.unlink {dir : EventDir} {live : List Event} (h : FilesInv dir live) (n : Nat) :
    FilesInv (dir.perform (.unlink n)) (liveAfter live (.unlink n)) := by
  refine ⟨fun m f => ?_, fun e he => h.numbered e (List.mem_filter.mp he).1⟩
  simp only [EventDir.perform, liveAfter, List.mem_filter, decide_eq_true_eq]
  by_cases hm : m = n
  · subst hm
    rw [AList.lookup_erase]
    constructor
    · intro h
      cases h
    · rintro ⟨e, ⟨-, hne⟩, hsame, -⟩
      exact absurd hsame hne
  · rw [AList.lookup_erase_ne hm, h.files]
    constructor
    · rintro ⟨e, he, rfl, hf⟩
      exact ⟨e, ⟨he, hm⟩, rfl, hf⟩
    · rintro ⟨e, ⟨he, -⟩, hsame, hf⟩
      exact ⟨e, he, hsame, hf⟩

theorem FilesInv.index {dir : EventDir} {live : List Event} (h : FilesInv dir live)
    (entries : List Nat) : FilesInv (dir.perform (.index entries)) live :=
  ⟨h.files, h.numbered⟩

/-- The files of a batch whose events can all be serialized. -/
theorem appendLoop_files {ds : List Draft} (hds : ∀ d ∈ ds, d.serializable) {dir : EventDir}
    {live : List Event} {seq : Nat} {index : List Nat} (h : FilesInv dir live) (hone : 1 ≤ seq)
    (hbelow : ∀ e ∈ live, e.sequence < seq) (hcovers : Covers index live)
    (hroom : seq + ds.length ≤ 10 ^ 10) :
    ∃ live', (EventStore.appendLoop ds seq index).1.foldl liveAfter live = live' ∧
      FilesInv (dir.performAll (EventStore.appendLoop ds seq index).1) live' ∧
      (∀ e ∈ live', e.sequence < seq + ds.length) ∧
      Covers (EventStore.appendLoop ds seq index).2.1 live' ∧
      (EventStore.appendLoop ds seq index).1.length = ds.length ∧
      (dir.performAll (EventStore.appendLoop ds seq index).1).index = dir.index := by
  induction ds generalizing dir live seq index with
  | nil => exact ⟨live, rfl, h, hbelow, hcovers, rfl, rfl⟩
  | cons d ds ih =>
      have hd := hds d List.mem_cons_self
      rw [List.length_cons] at hroom
      have hnumber : 1 ≤ seq ∧ seq < 10 ^ 10 := ⟨hone, by omega⟩
      have hnew := h.event (e := { d.event with sequence := seq })
        (fun e he => (hbelow e he).ne) hnumber
      have hlt : ∀ e ∈ live ++ [{ d.event with sequence := seq }], e.sequence < seq + 1 := by
        intro e he
        obtain he | he := List.mem_append.mp he
        · exact (hbelow e he).trans (Nat.lt_succ_self seq)
        · rw [List.mem_singleton.mp he]
          exact Nat.lt_succ_self seq
      have hcov : Covers (EventStore.addKey index seq) (live ++ [{ d.event with sequence := seq }]) := by
        intro e he
        rw [EventStore.mem_addKey]
        obtain he | he := List.mem_append.mp he
        · exact .inr (hcovers e he)
        · rw [List.mem_singleton.mp he]
          exact .inl rfl
      obtain ⟨live', hlive, hfiles, hbelow', hcovers', hlen, hindex⟩ :=
        ih (fun d hd => hds d (List.mem_cons_of_mem _ hd)) hnew (Nat.le_add_left 1 seq) hlt hcov
          (by omega)
      rw [EventStore.appendLoop, if_pos hd]
      refine ⟨live', hlive, hfiles, fun e he => ?_, hcovers', ?_, hindex⟩
      · have hlt' := hbelow' e he
        rw [List.length_cons]
        omega
      · simp [hlen]

/-- A directory that a store can be opened on again. -/
def Reopenable (dir : EventDir) (live : List Event) : Prop :=
  FilesInv dir live ∧ ∃ index, dir.index = some (.holds index) ∧ Covers index live

theorem Inv.reopenable {s : Session} (h : s.Inv) : Reopenable s.store.dir s.live :=
  ⟨h.files, _, h.saved, h.covers⟩

theorem Reopenable.inv {dir : EventDir} {live : List Event} (h : Reopenable dir live) :
    Inv ⟨.init dir, live⟩ := by
  obtain ⟨hfiles, index, hindex, hcovers⟩ := h
  have hload : dir.loadIndex = (index, []) := by
    rw [EventDir.loadIndex, hindex]
  have hinit : EventStore.init dir = ⟨dir, dir.loadLastSequence, index⟩ := by
    rw [EventStore.init, hload]
    rfl
  rw [hinit]
  refine ⟨hfiles, hindex, hcovers, fun e he => EventDir.le_loadLastSequence
    (List.mem_append_left _ ?_) (hfiles.numbered e he).2⟩
  exact AList.lookup_isSome.mp (by rw [(hfiles.files _ _).mpr ⟨e, he, rfl, rfl⟩]; rfl)

theorem inv_start (archived : List Nat) : (start archived).Inv := by
  refine ⟨⟨fun n f => ?_, fun e he => absurd he List.not_mem_nil⟩, rfl,
    fun e he => absurd he List.not_mem_nil, fun e he => absurd he List.not_mem_nil⟩
  constructor
  · intro h
    cases h
  · rintro ⟨e, he, -⟩
    cases he

theorem appendMany_written {s : Session} (h : s.Inv) {ds : List Draft} (hne : ds ≠ [])
    (hds : ∀ d ∈ ds, d.serializable) (hroom : s.store.lastSequence + ds.length < 10 ^ 10) :
    (s.store.appendMany ds).writes.length = ds.length + 1 ∧
      Inv ⟨s.store.after (s.store.appendMany ds),
        (s.store.appendMany ds).writes.foldl liveAfter s.live⟩ := by
  obtain ⟨live', hlive, hfiles, hbelow, hcovers, hlen, -⟩ := appendLoop_files hds h.files
    (Nat.le_add_left 1 s.store.lastSequence) (fun e he => Nat.lt_succ_of_le (h.bound e he)) h.covers
    (by omega)
  rw [s.store.appendMany_ok hne hds]
  refine ⟨by rw [List.length_append, hlen]; rfl, ?_⟩
  simp only [EventStore.after, EventDir.performAll, List.foldl_append, hlive]
  refine ⟨hfiles.index _, rfl, hcovers, fun e he => ?_⟩
  have hlt := hbelow e he
  show e.sequence ≤ s.store.lastSequence + ds.length
  omega

theorem reopenable_batch {s : Session} (h : s.Inv) {ds : List Draft} {k : Nat}
    (hk : s.WholeBatch ds k) :
    Reopenable (s.store.dir.performAll ((s.store.appendMany ds).writes.take k))
      (((s.store.appendMany ds).writes.take k).foldl liveAfter s.live) := by
  obtain rfl | hfailed | ⟨hlong, hds, hroom⟩ := hk
  · exact h.reopenable
  · rw [(s.store.appendMany_failed hfailed).1, List.take_nil]
    exact h.reopenable
  · obtain rfl | hne := eq_or_ne ds []
    · rw [(s.store.appendMany_failed fun d hd => by cases hd).1, List.take_nil]
      exact h.reopenable
    · obtain ⟨hlen, hinv⟩ := appendMany_written h hne hds hroom
      rw [List.take_of_length_le (by omega)]
      exact hinv.reopenable

theorem inv_batch {s : Session} (h : s.Inv) {ds : List Draft}
    (hk : s.WholeBatch ds (ds.length + 1)) :
    Inv ⟨s.store.after (s.store.appendMany ds),
      (s.store.appendMany ds).writes.foldl liveAfter s.live⟩ := by
  have hnothing : (∀ d ∈ ds.head?, d.serializable = false) →
      Inv ⟨s.store.after (s.store.appendMany ds),
        (s.store.appendMany ds).writes.foldl liveAfter s.live⟩ := by
    intro hfailed
    obtain ⟨hwrites, hlast, hindex⟩ := s.store.appendMany_failed hfailed
    rw [EventStore.after, hwrites, hlast, hindex]
    exact h
  obtain hzero | hfailed | ⟨-, hds, hroom⟩ := hk
  · exact absurd hzero (Nat.succ_ne_zero _)
  · exact hnothing hfailed
  · obtain rfl | hne := eq_or_ne ds []
    · exact hnothing fun d hd => by cases hd
    · exact (appendMany_written h hne hds hroom).2

/-- What purge removes is live no longer. -/
theorem unlinks_files {dir : EventDir} {live : List Event} (h : FilesInv dir live)
    (sequences : List Nat) :
    FilesInv (dir.performAll (sequences.map .unlink))
        ((sequences.map .unlink).foldl liveAfter live) ∧
      (dir.performAll (sequences.map .unlink)).index = dir.index ∧
      ∀ e ∈ (sequences.map .unlink).foldl liveAfter live, e ∈ live ∧ e.sequence ∉ sequences := by
  induction sequences generalizing dir live with
  | nil => exact ⟨h, rfl, fun e he => ⟨he, List.not_mem_nil⟩⟩
  | cons n rest ih =>
      obtain ⟨hfiles, hindex, hlive⟩ := ih (h.unlink n)
      refine ⟨hfiles, hindex, fun e he => ?_⟩
      obtain ⟨hmem, hrest⟩ := hlive e he
      obtain ⟨hmem, hne⟩ := List.mem_filter.mp hmem
      refine ⟨hmem, ?_⟩
      rintro (_ | ⟨_, hin⟩)
      · simp at hne
      · exact hrest hin

/-- The keys that purge drops have no file or lose it. -/
theorem dropped_of_purgeLoop {dir : EventDir} {now : Int} {index : List Nat} {n : Nat}
    (hn : n ∈ (EventStore.purgeLoop policy dir now index).2.1) :
    dir.files.lookup n = none ∨ n ∈ (EventStore.purgeLoop policy dir now index).1 := by
  induction index with
  | nil => cases hn
  | cons seq rest ih =>
      rw [EventStore.purgeLoop] at hn ⊢
      cases hfile : dir.files.lookup seq with
      | none =>
          simp only [hfile] at hn ⊢
          obtain rfl | hn := List.mem_cons.mp hn
          · exact .inl hfile
          · exact ih hn
      | some file =>
          simp only [hfile] at hn ⊢
          cases hparse : EventDir.parseEvent file with
          | none =>
              simp only [hparse] at hn
              cases hn
          | some e =>
              simp only [hparse] at hn ⊢
              cases hpurge : policy.shouldPurge e now with
              | error err =>
                  simp only [hpurge] at hn
                  cases hn
              | ok old =>
                  simp only [hpurge] at hn ⊢
                  cases old with
                  | false => exact ih hn
                  | true =>
                      obtain rfl | hn := List.mem_cons.mp hn
                      · exact .inr List.mem_cons_self
                      · exact (ih hn).imp_right (List.mem_cons_of_mem _)

theorem reopenable_unlinks {s : Session} (h : s.Inv) (sequences : List Nat) :
    Reopenable (s.store.dir.performAll (sequences.map .unlink))
      ((sequences.map .unlink).foldl liveAfter s.live) := by
  obtain ⟨hfiles, hindex, hlive⟩ := unlinks_files h.files sequences
  exact ⟨hfiles, _, hindex.trans h.saved, fun e he => h.covers e (hlive e he).1⟩

theorem inv_purge {s : Session} (h : s.Inv) (now : Int) :
    Inv ⟨s.store.after (s.store.purge policy now),
      (s.store.purge policy now).writes.foldl liveAfter s.live⟩ := by
  obtain ⟨hfiles, hindex, hlive⟩ := unlinks_files h.files
    (EventStore.purgeLoop policy s.store.dir now s.store.index).1
  have hbound : ∀ e ∈ ((EventStore.purgeLoop policy s.store.dir now s.store.index).1.map
      .unlink).foldl liveAfter s.live, e.sequence ≤ s.store.lastSequence :=
    fun e he => h.bound e (hlive e he).1
  have hcovers : Covers (s.store.index.filter fun n =>
      n ∉ (EventStore.purgeLoop policy s.store.dir now s.store.index).2.1)
      (((EventStore.purgeLoop policy s.store.dir now s.store.index).1.map .unlink).foldl
        liveAfter s.live) := by
    intro e he
    obtain ⟨hmem, hkept⟩ := hlive e he
    refine List.mem_filter.mpr ⟨h.covers e hmem, decide_eq_true fun hdrop => ?_⟩
    obtain hnone | hin := dropped_of_purgeLoop policy hdrop
    · rw [(h.files.files _ _).mpr ⟨e, hmem, rfl, rfl⟩] at hnone
      cases hnone
    · exact hkept hin
  rw [EventStore.purge]
  cases hres : (EventStore.purgeLoop policy s.store.dir now s.store.index).2.2 with
  | error err =>
      exact ⟨hfiles, hindex.trans h.saved, fun e he => h.covers e (hlive e he).1, hbound⟩
  | ok u =>
      by_cases hnil : (EventStore.purgeLoop policy s.store.dir now s.store.index).2.1 = []
      · simp only [hnil, if_true, List.append_nil] at hcovers ⊢
        refine ⟨hfiles, ?_, hcovers, hbound⟩
        simp [EventStore.after, hindex, h.saved]
      · simp only [hnil, if_false]
        simp only [EventStore.after, EventDir.performAll, List.foldl_append]
        exact ⟨hfiles.index _, rfl, hcovers, hbound⟩

theorem reopenable_purge {s : Session} (h : s.Inv) (now : Int) (k : Nat) :
    Reopenable (s.store.dir.performAll ((s.store.purge policy now).writes.take k))
      (((s.store.purge policy now).writes.take k).foldl liveAfter s.live) := by
  by_cases hk : (s.store.purge policy now).writes.length ≤ k
  · rw [List.take_of_length_le hk]
    exact (inv_purge policy h now).reopenable
  · have hunlinks : ∃ sequences : List Nat,
        (s.store.purge policy now).writes.take k = sequences.map .unlink := by
      rw [EventStore.purge] at hk ⊢
      cases hres : (EventStore.purgeLoop policy s.store.dir now s.store.index).2.2 with
      | error err => exact ⟨_, List.map_take.symm⟩
      | ok u =>
          simp only [hres] at hk ⊢
          refine ⟨_, (List.take_append_of_le_length ?_).trans List.map_take.symm⟩
          rw [List.length_append] at hk
          split at hk
          · rw [List.length_nil] at hk
            omega
          · rw [List.length_singleton] at hk
            omega
    obtain ⟨sequences, htake⟩ := hunlinks
    rw [htake]
    exact reopenable_unlinks h sequences

theorem inv_step {s : Session} (h : s.Inv) {a : Action} (ha : s.Whole a) :
    (s.step policy a).Inv := by
  cases a with
  | call c =>
      cases c with
      | append d =>
          rw [step, Call.outcome, EventStore.append_noResult]
          exact inv_batch h ha
      | appendMany ds => exact inv_batch h ha
      | purge now => exact inv_purge policy h now
  | crash c k =>
      cases c with
      | append d =>
          rw [step, Call.outcome, EventStore.append_noResult]
          exact (reopenable_batch h ha).inv
      | appendMany ds => exact (reopenable_batch h ha).inv
      | purge now => exact (reopenable_purge policy h now k).inv

theorem Inv.get_iff {s : Session} (h : s.Inv) {n : Nat} {e : Event} :
    s.store.get n = some e ↔ e ∈ s.live ∧ e.sequence = n := by
  rw [EventStore.get]
  constructor
  · intro hget
    split at hget
    case isTrue =>
      obtain ⟨f, hf, hparse⟩ := Option.bind_eq_some_iff.mp hget
      obtain ⟨e', he', hsame, rfl⟩ := (h.files.files n f).mp hf
      cases hparse
      exact ⟨he', hsame⟩
    case isFalse => cases hget
  · rintro ⟨he, rfl⟩
    rw [if_pos (h.covers e he), (h.files.files _ _).mpr ⟨e, he, rfl, rfl⟩]
    rfl

theorem Inv.mem_read {s : Session} (h : s.Inv) {sequences : List Nat} {e : Event} :
    e ∈ s.store.read sequences ↔ e ∈ s.live ∧ e.sequence ∈ sequences := by
  rw [EventStore.read, List.mem_filterMap]
  constructor
  · rintro ⟨n, hn, hget⟩
    obtain ⟨he, rfl⟩ := h.get_iff.mp hget
    exact ⟨he, hn⟩
  · rintro ⟨he, hn⟩
    exact ⟨_, hn, h.get_iff.mpr ⟨he, rfl⟩⟩

theorem Inv.durable {s : Session} (h : s.Inv) : s.Durable where
  get e he := h.get_iff.mpr ⟨he, rfl⟩
  getRange e he start limit hstart hlimit := by
    have hlast := h.bound e he
    have hlen : (s.store.read (List.range' start (s.store.lastSequence + 1 - start))).length ≤
        limit := (List.length_filterMap_le _ _).trans (by rwa [List.length_range'])
    rw [EventStore.getRange, List.take_of_length_le hlen, h.mem_read, List.mem_range'_1]
    exact ⟨he, hstart, by omega⟩
  query e he q hq hlimit := by
    have hlast := h.bound e he
    have hone := (h.files.numbered e he).1
    have hlen : ((s.store.read (List.range' 1 s.store.lastSequence).reverse).filter
        q.accepts).length ≤ q.limit := by
      refine (List.length_filter_le _ _).trans ((List.length_filterMap_le _ _).trans ?_)
      rwa [List.length_reverse, List.length_range']
    rw [EventStore.query, List.take_of_length_le hlen, List.mem_filter, h.mem_read,
      List.mem_reverse, List.mem_range'_1]
    exact ⟨⟨he, hone, by omega⟩, hq⟩
  onlyGet n e he := (h.get_iff.mp he).1
  onlyGetRange start limit e he := (h.mem_read.mp (List.mem_of_mem_take he)).1
  onlyQuery q e he :=
    (h.mem_read.mp (List.mem_filter.mp (List.mem_of_mem_take he)).1).1

/-- Only the times of the sample event are read. -/
def samplePolicy : EventRetentionPolicy where
  fromisoformat text := if text = "1970-01-01T00:00:00" then some (.naive 0) else none
  retention := EventRetentionPolicy.defaultRetention

def sampleDraft : Draft where
  event := { runSlug := "demo", timestamp := "1970-01-01T00:00:00", eventType := "error" }

def sampleActions : List Action :=
  [.call (.append sampleDraft), .crash (.appendMany [sampleDraft, sampleDraft]) 3,
    .crash (.purge (EventRetentionPolicy.days 400)) 1]

end Session

end Prodinamik.Events
