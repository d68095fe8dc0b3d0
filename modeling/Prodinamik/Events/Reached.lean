import Prodinamik.Events.Batch

namespace Prodinamik.Events

/-- A request to a store, or something that befalls its directory: what is in a file is no event
any more, or the file is gone, or the index is. -/
inductive Incident
  | request (r : Request)
  | damage (sequence : Nat)
  | vanish (sequence : Nat)
  | loseIndex
  deriving DecidableEq, Repr

/-- An event is written to the file of its number. -/
def Write.Fair : Write → Prop
  | .event n file => ∀ e, file = .holds e → e.sequence = n ∧ 1 ≤ n
  | .index entries => entries.Nodup
  | .unlink _ => True

namespace EventDir

/-- Every event is in the file of its number, and no number is saved twice. -/
structure Sound (d : EventDir) : Prop where
  numbered : ∀ n e, d.files.lookup n = some (.holds e) → e.sequence = n ∧ 1 ≤ n
  saved : ∀ entries, d.index = some (.holds entries) → entries.Nodup

variable {d : EventDir}

theorem Sound.perform (h : d.Sound) {w : Write} (hw : w.Fair) : (d.perform w).Sound := by
  cases w with
  | event n file =>
      refine ⟨fun m e hm => ?_, h.saved⟩
      rw [lookup_event] at hm
      split at hm
      case isTrue hn => exact hn ▸ hw e (Option.some.inj hm)
      case isFalse => exact h.numbered m e hm
  | index entries =>
      refine ⟨h.numbered, fun entries' heq => ?_⟩
      cases heq
      exact hw
  | unlink n =>
      refine ⟨fun m e hm => ?_, h.saved⟩
      rw [lookup_unlink] at hm
      split at hm
      case isTrue => cases hm
      case isFalse => exact h.numbered m e hm

theorem Sound.performAll (h : d.Sound) {ws : List Write} (hws : ∀ w ∈ ws, w.Fair) :
    (d.performAll ws).Sound := by
  induction ws generalizing d with
  | nil => exact h
  | cons w ws ih =>
      obtain ⟨hw, hws⟩ := List.forall_mem_cons.mp hws
      exact ih (h.perform hw) hws

theorem nodup_glob {sequences : List Nat} (h : sequences.Nodup) : (glob sequences).Nodup :=
  h.filter _

/-- A loaded index has no number twice, and what is written to load it is fair. -/
theorem Sound.loadIndex (h : d.Sound) :
    d.loadIndex.1.Nodup ∧ ∀ w ∈ d.loadIndex.2, w.Fair := by
  have hrebuilt : ((glob d.files.keys).insertionSort (· ≤ ·)).Nodup :=
    (List.perm_insertionSort _ _).nodup_iff.mpr (nodup_glob (AList.keys_nodup _))
  have hfair : ∀ w ∈ [Write.index ((glob d.files.keys).insertionSort (· ≤ ·))], w.Fair := by
    intro w hw
    rw [List.mem_singleton.mp hw]
    exact hrebuilt
  rw [EventDir.loadIndex]
  split
  case h_1 entries hindex => exact ⟨h.saved _ hindex, fun w hw => absurd hw List.not_mem_nil⟩
  case h_2 => exact ⟨hrebuilt, hfair⟩

end EventDir

namespace EventStore

variable (policy : EventRetentionPolicy)

def request (s : EventStore) : Request → EventStore
  | .call c => s.after (c.outcome policy s)
  | .compact slug now nowText => s.after (s.compact policy slug now nowText)
  | .reopen => .init s.dir

def step (s : EventStore) : Incident → EventStore
  | .request r => s.request policy r
  | .damage n => { s with dir := s.dir.perform (.event n .unreadable) }
  | .vanish n => { s with dir := s.dir.perform (.unlink n) }
  | .loseIndex => { s with dir := { s.dir with index := none } }

/-- A new store; there may be archived events. -/
def start (archived : List Nat) : EventStore := .init { archived := archived }

structure Sound (s : EventStore) : Prop where
  dir : s.dir.Sound
  nodup : s.index.Nodup

variable {policy} {s : EventStore}

theorem Sound.init {d : EventDir} (h : d.Sound) : (EventStore.init d).Sound :=
  ⟨h.performAll h.loadIndex.2, h.loadIndex.1⟩

theorem sound_start (archived : List Nat) : (start archived).Sound := by
  refine .init ⟨fun n e h => ?_, fun entries h => ?_⟩
  · cases h
  · cases h

theorem Sound.after {α : Type} (h : s.Sound) {o : Outcome α} (hwrites : ∀ w ∈ o.writes, w.Fair)
    (hindex : o.index.Nodup) : (s.after o).Sound :=
  ⟨h.dir.performAll hwrites, hindex⟩

theorem nodup_addKey {index : List Nat} (h : index.Nodup) (seq : Nat) : (addKey index seq).Nodup := by
  rw [addKey]
  split
  case isTrue => exact h
  case isFalse hn => exact h.append (List.nodup_singleton seq) (by simpa using hn)

/-- The writes and the index of append. -/
theorem append_fair (h : s.index.Nodup) (d : Draft) :
    (∀ w ∈ (s.append d).writes, w.Fair) ∧ (s.append d).index.Nodup := by
  have hkey := nodup_addKey h (s.lastSequence + 1)
  rw [append]
  split
  · refine ⟨?_, hkey⟩
    simp only [List.forall_mem_cons]
    refine ⟨?_, hkey, fun w hw => absurd hw List.not_mem_nil⟩
    rintro e ⟨⟩
    exact ⟨rfl, Nat.le_add_left 1 _⟩
  · exact ⟨fun w hw => absurd hw List.not_mem_nil, h⟩

theorem appendLoop_fair (ds : List Draft) {seq : Nat} (hone : 1 ≤ seq) {index : List Nat}
    (h : index.Nodup) : (∀ w ∈ (appendLoop ds seq index).1, w.Fair) ∧
      (appendLoop ds seq index).2.1.Nodup := by
  induction ds generalizing seq index with
  | nil => exact ⟨fun w hw => absurd hw List.not_mem_nil, h⟩
  | cons d ds ih =>
      rw [appendLoop]
      split
      · obtain ⟨hwrites, hindex⟩ := ih (Nat.le_add_left 1 seq) (nodup_addKey h seq)
        refine ⟨List.forall_mem_cons.mpr ⟨?_, hwrites⟩, hindex⟩
        rintro e ⟨⟩
        exact ⟨rfl, hone⟩
      · exact ⟨fun w hw => absurd hw List.not_mem_nil, h⟩

theorem appendMany_fair (h : s.index.Nodup) (ds : List Draft) :
    (∀ w ∈ (s.appendMany ds).writes, w.Fair) ∧ (s.appendMany ds).index.Nodup := by
  obtain ⟨hwrites, hindex⟩ := appendLoop_fair ds (Nat.le_add_left 1 s.lastSequence) h
  rw [appendMany]
  split
  · exact ⟨fun w hw => absurd hw List.not_mem_nil, h⟩
  · simp only
    split
    · exact ⟨hwrites, hindex⟩
    · refine ⟨?_, hindex⟩
      rw [List.forall_mem_append, List.forall_mem_singleton]
      exact ⟨hwrites, hindex⟩

theorem unlinks_fair (sequences : List Nat) : ∀ w ∈ sequences.map Write.unlink, w.Fair := by
  intro w hw
  obtain ⟨n, -, rfl⟩ := List.mem_map.mp hw
  trivial

theorem purge_fair (h : s.index.Nodup) (now : Int) :
    (∀ w ∈ (s.purge policy now).writes, w.Fair) ∧ (s.purge policy now).index.Nodup := by
  rw [purge]
  cases (purgeLoop policy s.dir now s.index).2.2 with
  | error err => exact ⟨unlinks_fair _, h⟩
  | ok u =>
      refine ⟨List.forall_mem_append.mpr ⟨unlinks_fair _, ?_⟩, h.filter _⟩
      split
      · exact fun w hw => absurd hw List.not_mem_nil
      · exact List.forall_mem_singleton.mpr (h.filter _)

theorem removeDetails_fair (dir : EventDir) (es : List Event) {index : List Nat}
    (h : index.Nodup) : (∀ w ∈ (removeDetails dir es index).1, w.Fair) ∧
      (removeDetails dir es index).2.1.Nodup := by
  have hunlink (e : Event) : ∀ w ∈ (if (dir.files.lookup e.sequence).isSome then
      [Write.unlink e.sequence] else []), w.Fair := by
    intro w hw
    split at hw
    · rw [List.mem_singleton.mp hw]
      trivial
    · exact absurd hw List.not_mem_nil
  induction es generalizing index with
  | nil => exact ⟨fun w hw => absurd hw List.not_mem_nil, h⟩
  | cons e es ih =>
      rw [removeDetails]
      split
      · obtain ⟨hwrites, hindex⟩ := ih (h.erase e.sequence)
        exact ⟨List.forall_mem_append.mpr ⟨hunlink e, hwrites⟩, hindex⟩
      · exact ⟨hunlink e, h⟩

theorem compact_fair (h : s.index.Nodup) (slug : String) (now : Int) (nowText : String) :
    (∀ w ∈ (s.compact policy slug now nowText).writes, w.Fair) ∧
      (s.compact policy slug now nowText).index.Nodup := by
  rw [compact]
  cases oldEvents policy s.dir (now - EventRetentionPolicy.compactionAge) s.index with
  | error err => exact ⟨fun w hw => absurd hw List.not_mem_nil, h⟩
  | ok old =>
      simp only
      split
      · exact ⟨fun w hw => absurd hw List.not_mem_nil, h⟩
      · obtain ⟨hwrites, hindex⟩ := removeDetails_fair s.dir
          (old.filter fun e => e.eventType = EventType.validationDetail.value) h
        split
        · exact ⟨hwrites, hindex⟩
        · obtain ⟨happend, hindex'⟩ := @append_fair ⟨s.dir.performAll _, s.lastSequence, _⟩ hindex _
          refine ⟨?_, hindex'⟩
          rw [List.forall_mem_append, List.forall_mem_append, List.forall_mem_singleton]
          exact ⟨⟨hwrites, happend⟩, hindex'⟩

theorem Sound.request (h : s.Sound) (r : Request) : (s.request policy r).Sound := by
  cases r with
  | call c =>
      cases c with
      | append d => exact h.after (append_fair h.nodup d).1 (append_fair h.nodup d).2
      | appendMany ds => exact h.after (appendMany_fair h.nodup ds).1 (appendMany_fair h.nodup ds).2
      | purge now => exact h.after (purge_fair h.nodup now).1 (purge_fair h.nodup now).2
  | compact slug now nowText =>
      exact h.after (compact_fair h.nodup slug now nowText).1 (compact_fair h.nodup slug now nowText).2
  | reopen => exact .init h.dir

theorem Sound.step (h : s.Sound) (i : Incident) : (s.step policy i).Sound := by
  cases i with
  | request r => exact h.request r
  | damage n =>
      have hfair : (Write.event n .unreadable).Fair := fun e he => by cases he
      exact ⟨h.dir.perform hfair, h.nodup⟩
  | vanish n =>
      have hfair : (Write.unlink n).Fair := trivial
      exact ⟨h.dir.perform hfair, h.nodup⟩
  | loseIndex => exact ⟨⟨h.dir.numbered, fun entries he => by cases he⟩, h.nodup⟩

theorem sound_run (archived : List Nat) (incidents : List Incident) :
    (incidents.foldl (step policy) (start archived)).Sound :=
  List.foldlRecOn incidents _ (sound_start archived) fun _ hs i _ => hs.step i

end EventStore

end Prodinamik.Events
