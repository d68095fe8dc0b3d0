import Prodinamik.Events.Reached

namespace Prodinamik.Events

open Lib.Run

namespace EventDir

/-- The file of a number that is not written is as it was, or it is removed. -/
theorem lookup_of_performAll {d : EventDir} {ws : List Write} {n : Nat} (hn : n ∉ numbers ws)
    {file : EventFile} (h : (d.performAll ws).files.lookup n = some file) :
    d.files.lookup n = some file := by
  induction ws generalizing d with
  | nil => exact h
  | cons w ws ih =>
      cases w with
      | event m f =>
          have hne : n ≠ m ∧ n ∉ numbers ws := not_or.mp fun h => hn (List.mem_cons.mpr h)
          have h' := ih hne.2 h
          rwa [lookup_event, if_neg hne.1] at h'
      | index entries => exact @ih (d.perform (.index entries)) hn h
      | unlink m =>
          have h' : (d.perform (.unlink m)).files.lookup n = some file := ih hn h
          rw [lookup_unlink] at h'
          split at h'
          case isTrue => cases h'
          case isFalse => exact h'

theorem loadLastSequence_lt (d : EventDir) : d.loadLastSequence < 10 ^ 10 := by
  have hmax (l : List Nat) (hl : ∀ n ∈ l, n < 10 ^ 10) {a : Nat} (ha : a < 10 ^ 10) :
      l.foldl max a < 10 ^ 10 := by
    induction l generalizing a with
    | nil => exact ha
    | cons n l ih =>
        obtain ⟨hn, hl⟩ := List.forall_mem_cons.mp hl
        exact ih hl (max_lt ha hn)
  exact hmax _ (fun n hn => of_decide_eq_true (List.mem_filter.mp hn).2) (by decide)

end EventDir

namespace EventStore

variable {s : EventStore}

/-- The pages from a number on, each continued behind its last event, until one is empty; none
is out of fuel. -/
def pages (s : EventStore) (limit : Nat) : Nat → Nat → Option (List Event)
  | 0, _ => none
  | fuel + 1, start =>
    match (s.getRange start limit).getLast? with
    | none => some []
    | some e => (s.pages limit fuel (e.sequence + 1)).map fun rest => s.getRange start limit ++ rest

/-- The pages are get_all, and this is every event that can be read, once and in order. -/
structure Paged (s : EventStore) : Prop where
  pages : ∀ limit, 1 ≤ limit → s.pages limit (s.lastSequence + 1) 1 = some s.getAll
  every : ∀ e, e ∈ s.getAll ↔ ∃ n, s.get n = some e
  increasing : s.getAll.Pairwise fun e e' => e.sequence < e'.sequence

theorem get_eq_some {n : Nat} {e : Event} :
    s.get n = some e ↔ n ∈ s.index ∧ s.dir.files.lookup n = some (.holds e) := by
  have hparse (file : EventFile) : EventDir.parseEvent file = some e ↔ file = .holds e := by
    cases file with
    | unreadable => exact iff_of_false (Option.some_ne_none e).symm EventFile.noConfusion
    | holds e' => rw [EventDir.parseEvent, Option.some_inj, EventFile.holds.injEq]
  rw [get]
  split
  case isFalse hn => exact iff_of_false (Option.some_ne_none e).symm fun h => hn h.1
  case isTrue hn =>
    rw [and_iff_right hn, Option.bind_eq_some_iff]
    simp only [hparse, exists_eq_right]

theorem Sound.sequence (h : s.Sound) {n : Nat} {e : Event} (he : s.get n = some e) :
    e.sequence = n ∧ 1 ≤ n :=
  h.dir.numbered n e (get_eq_some.mp he).2

theorem read_cons (s : EventStore) (n : Nat) (ns : List Nat) :
    s.read (n :: ns) = (s.get n).toList ++ s.read ns := by
  rw [read, List.filterMap_cons]
  cases s.get n <;> rfl

/-- The numbers of what is read are among those that are asked for. -/
theorem Sound.sublist_read (h : s.Sound) (ns : List Nat) :
    ((s.read ns).map Event.sequence).Sublist ns := by
  induction ns with
  | nil => exact List.Sublist.refl []
  | cons n ns ih =>
      rw [read_cons]
      cases he : s.get n with
      | none => exact ih.cons n
      | some e =>
          rw [Option.toList_some, List.singleton_append, List.map_cons, (h.sequence he).1]
          exact ih.cons_cons n

theorem Sound.increasing_read (h : s.Sound) (start len : Nat) :
    (s.read (List.range' start len)).Pairwise fun e e' => e.sequence < e'.sequence :=
  List.pairwise_map.mp ((List.pairwise_lt_range').sublist (h.sublist_read _))

theorem getAll_eq (s : EventStore) : s.getAll = s.read (List.range' 1 s.lastSequence) := by
  rw [getAll, getRange, Nat.add_sub_cancel]
  refine List.take_of_length_le ((List.length_filterMap_le _ _).trans ?_)
  rw [List.length_range']
  exact Nat.le_succ _

theorem mem_getAll {e : Event} :
    e ∈ s.getAll ↔ ∃ n, (1 ≤ n ∧ n ≤ s.lastSequence) ∧ s.get n = some e := by
  rw [getAll_eq, read, List.mem_filterMap]
  refine exists_congr fun n => and_congr_left fun _ => ?_
  rw [List.mem_range'_1, Nat.add_comm 1, Nat.lt_succ_iff]

/-- Behind the last event of a page the reading goes on. -/
theorem Sound.read_page (h : s.Sound) (len : Nat) {start limit : Nat} (hlimit : 1 ≤ limit)
    {e : Event} (he : ((s.read (List.range' start len)).take limit).getLast? = some e) :
    start ≤ e.sequence ∧ e.sequence < start + len ∧
      s.read (List.range' start len) = (s.read (List.range' start len)).take limit ++
        s.read (List.range' (e.sequence + 1) (start + len - (e.sequence + 1))) := by
  induction len generalizing start limit with
  | zero =>
      rw [List.range'_zero, read, List.filterMap_nil, List.take_nil] at he
      cases he
  | succ len ih =>
      rw [List.range'_succ, read_cons] at he ⊢
      cases hget : s.get start with
      | none =>
          rw [hget] at he
          obtain ⟨hle, hlt, heq⟩ := ih hlimit he
          refine ⟨Nat.le_of_succ_le hle, by omega, ?_⟩
          rw [show start + (len + 1) = start + 1 + len by omega]
          exact heq
      | some e' =>
          obtain ⟨limit, rfl⟩ := Nat.exists_eq_add_of_le' hlimit
          rw [hget, Option.toList_some, List.singleton_append, List.take_succ_cons,
            List.getLast?_cons, Option.some_inj] at he
          rw [Option.toList_some, List.singleton_append, List.take_succ_cons, List.cons_append]
          cases hlast : ((s.read (List.range' (start + 1) len)).take limit).getLast? with
          | none =>
              rw [hlast] at he
              obtain rfl : e' = e := he
              have hempty := List.getLast?_eq_none_iff.mp hlast
              rw [hempty, List.nil_append, (h.sequence hget).1,
                show start + (len + 1) - (start + 1) = len by omega]
              exact ⟨le_rfl, by omega, rfl⟩
          | some e'' =>
              rw [hlast] at he
              obtain rfl : e'' = e := he
              have hone : 1 ≤ limit := by
                by_contra hzero
                rw [Nat.lt_one_iff.mp (not_le.mp hzero)] at hlast
                cases hlast
              obtain ⟨hle, hlt, heq⟩ := ih hone hlast
              rw [show start + (len + 1) = start + 1 + len by omega]
              exact ⟨Nat.le_of_succ_le hle, by omega, congrArg (e' :: ·) heq⟩

/-- Fuel for one page more than there are numbers reads them all. -/
theorem Sound.pages_eq (h : s.Sound) {limit : Nat} (hlimit : 1 ≤ limit) {fuel start : Nat}
    (hfuel : s.lastSequence + 1 - start < fuel) : s.pages limit fuel start =
      some (s.read (List.range' start (s.lastSequence + 1 - start))) := by
  induction fuel generalizing start with
  | zero => exact absurd hfuel (Nat.not_lt_zero _)
  | succ fuel ih =>
      rw [pages]
      cases hlast : (s.getRange start limit).getLast? with
      | none =>
          have hempty := List.getLast?_eq_none_iff.mp hlast
          rw [getRange, List.take_eq_nil_iff] at hempty
          rw [hempty.resolve_left (Nat.one_le_iff_ne_zero.mp hlimit)]
      | some e =>
          obtain ⟨hle, hlt, heq⟩ := h.read_page _ hlimit hlast
          have hrest : start + (s.lastSequence + 1 - start) - (e.sequence + 1) =
              s.lastSequence + 1 - (e.sequence + 1) := by omega
          have hih := @ih (e.sequence + 1) (by omega)
          simp only [hih, Option.map_some, getRange]
          rw [hrest] at heq
          rw [← heq]

/-- No event can be read under a number beyond the counter. -/
def Counted (s : EventStore) : Prop := ∀ n e, s.get n = some e → n ≤ s.lastSequence

theorem Sound.paged_iff (h : s.Sound) : s.Paged ↔ s.Counted := by
  constructor
  · intro hpaged n e he
    obtain ⟨m, ⟨-, hm⟩, he'⟩ := mem_getAll.mp ((hpaged.every e).mpr ⟨n, he⟩)
    rwa [← (h.sequence he).1, (h.sequence he').1]
  · intro hcounted
    refine ⟨fun limit hlimit => ?_, fun e => ?_, ?_⟩
    · rw [h.pages_eq hlimit (by omega), getAll_eq, Nat.add_sub_cancel]
    · rw [mem_getAll]
      constructor
      · rintro ⟨n, -, he⟩
        exact ⟨n, he⟩
      · rintro ⟨n, he⟩
        exact ⟨n, ⟨(h.sequence he).2, hcounted n e he⟩, he⟩
    · rw [getAll_eq]
      exact h.increasing_read _ _

/-- Where a call counts what it writes and lists no number beyond the counter, all is counted. -/
theorem Counted.after {α : Type} (h : s.Counted) {o : Outcome α} (ho : Counts s.lastSequence o)
    (hindex : ∀ n ∈ o.index, n ∈ s.index ∨ n ≤ o.lastSequence) : (s.after o).Counted := by
  obtain ⟨m, hnumbers, hlast⟩ := ho
  intro n e he
  obtain ⟨hn, hfile⟩ := get_eq_some.mp he
  by_contra hlt
  have hlt : o.lastSequence < n := not_le.mp hlt
  have hwritten : n ∉ numbers o.writes := by
    rw [hnumbers, List.mem_range'_1]
    omega
  have hold := h n e (get_eq_some.mpr ⟨(hindex n hn).resolve_right (not_le.mpr hlt),
    EventDir.lookup_of_performAll hwritten hfile⟩)
  omega

theorem index_append (s : EventStore) (d : Draft) :
    ∀ n ∈ (s.append d).index, n ∈ s.index ∨ n ≤ (s.append d).lastSequence := by
  intro n hn
  rw [append] at hn ⊢
  split at hn
  case isTrue hd =>
    rw [if_pos hd]
    obtain rfl | hn := mem_addKey.mp hn
    · exact .inr le_rfl
    · exact .inl hn
  case isFalse => exact .inl hn

theorem index_appendLoop {ds : List Draft} {seq : Nat} {index : List Nat} {n : Nat}
    (hn : n ∈ (appendLoop ds seq index).2.1) : n ∈ index ∨ n < seq + ds.length := by
  induction ds generalizing seq index with
  | nil => exact .inl hn
  | cons d ds ih =>
      rw [List.length_cons]
      rw [appendLoop] at hn
      split at hn
      · obtain hn | hn := ih hn
        · obtain rfl | hn := mem_addKey.mp hn
          · exact .inr (by omega)
          · exact .inl hn
        · exact .inr (by omega)
      · exact .inl hn

theorem index_appendMany (s : EventStore) {ds : List Draft} (hds : Serializable ds) :
    ∀ n ∈ (s.appendMany ds).index, n ∈ s.index ∨ n ≤ (s.appendMany ds).lastSequence := by
  intro n hn
  obtain hfailed | hall := hds
  · rw [(s.appendMany_failed hfailed).2.2] at hn
    exact .inl hn
  · obtain rfl | hne := eq_or_ne ds []
    · exact .inl hn
    · rw [s.appendMany_ok hne hall] at hn ⊢
      exact (index_appendLoop hn).imp_right fun (hlt : n < s.lastSequence + 1 + ds.length) =>
        show n ≤ s.lastSequence + ds.length by omega

theorem index_purge (policy : EventRetentionPolicy) (s : EventStore) (now : Int) :
    ∀ n ∈ (s.purge policy now).index, n ∈ s.index := by
  intro n hn
  rw [purge] at hn
  split at hn
  · exact hn
  · exact (List.mem_filter.mp hn).1

theorem index_removeDetails {dir : EventDir} {es : List Event} {index : List Nat} {n : Nat}
    (hn : n ∈ (removeDetails dir es index).2.1) : n ∈ index := by
  induction es generalizing index with
  | nil => exact hn
  | cons e es ih =>
      rw [removeDetails] at hn
      split at hn
      · exact List.mem_of_mem_erase (ih hn)
      · exact hn

theorem index_compact (policy : EventRetentionPolicy) (s : EventStore) (slug : String) (now : Int)
    (nowText : String) : ∀ n ∈ (s.compact policy slug now nowText).index,
      n ∈ s.index ∨ n ≤ (s.compact policy slug now nowText).lastSequence := by
  intro n hn
  rw [compact] at hn ⊢
  cases hold : oldEvents policy s.dir (now - EventRetentionPolicy.compactionAge) s.index with
  | error err =>
      rw [hold] at hn
      exact .inl hn
  | ok old =>
      simp only [hold] at hn ⊢
      by_cases hfew : old.length < EventRetentionPolicy.compactionBatch
      · rw [if_pos hfew] at hn
        exact .inl hn
      · rw [if_neg hfew] at hn ⊢
        split at hn
        case h_1 => exact .inl (index_removeDetails hn)
        case h_2 =>
          obtain hn | hn := index_append _ _ n hn
          · exact .inl (index_removeDetails hn)
          · exact .inr hn

/-- The files and the keys below the first number of a batch are kept. -/
theorem appendLoop_keeps (ds : List Draft) {seq n : Nat} (hn : n < seq) (dir : EventDir)
    {index : List Nat} (hindex : n ∈ index) :
    (dir.performAll (appendLoop ds seq index).1).files.lookup n = dir.files.lookup n ∧
      n ∈ (appendLoop ds seq index).2.1 := by
  induction ds generalizing seq dir index with
  | nil => exact ⟨rfl, hindex⟩
  | cons d ds ih =>
      rw [appendLoop]
      split
      · obtain ⟨hfiles, hmem⟩ := ih (Nat.lt_succ_of_lt hn)
          (dir.perform (.event seq (.holds { d.event with sequence := seq })))
          (mem_addKey.mpr (.inr hindex))
        refine ⟨hfiles.trans ?_, hmem⟩
        rw [EventDir.lookup_event, if_neg hn.ne]
      · exact ⟨rfl, hindex⟩

/-- The first of a batch of which a later event cannot be serialized is in the index and in its
file, and is not counted. -/
theorem not_counted_of_raises {ds : List Draft} (hds : ¬ Serializable ds) :
    ¬ (s.after (s.appendMany ds)).Counted := by
  obtain ⟨hfirst, hbad⟩ := not_or.mp hds
  cases ds with
  | nil => exact absurd (fun d hd => absurd hd List.not_mem_nil) hbad
  | cons d ds =>
      have hd : d.serializable := by
        by_contra hd
        exact hfirst fun d' hd' => by cases hd'; exact eq_false_of_ne_true hd
      have hraises : ∃ x ∈ d :: ds, x.serializable = false := by
        by_contra hnone
        exact hbad fun x hx => by
          by_contra hx'
          exact hnone ⟨x, hx, eq_false_of_ne_true hx'⟩
      have hlast := (s.appendMany_raises hraises).1
      have hloop : s.appendMany (d :: ds) =
          ⟨(appendLoop (d :: ds) (s.lastSequence + 1) s.index).1, s.lastSequence,
            (appendLoop (d :: ds) (s.lastSequence + 1) s.index).2.1, .error notSerializable⟩ := by
        rw [appendMany, if_neg (List.cons_ne_nil _ _)]
        simp only [appendLoop_raises hraises]
      obtain ⟨hfile, hkey⟩ := appendLoop_keeps ds (Nat.lt_succ_self (s.lastSequence + 1))
        (s.dir.perform (.event (s.lastSequence + 1)
          (.holds { d.event with sequence := s.lastSequence + 1 })))
        (mem_addKey.mpr (.inl rfl) : s.lastSequence + 1 ∈ addKey s.index (s.lastSequence + 1))
      rw [EventDir.lookup_event, if_pos rfl] at hfile
      intro hcounted
      have hle := hcounted (s.lastSequence + 1) { d.event with sequence := s.lastSequence + 1 } (by
        rw [get_eq_some, hloop, appendLoop, if_pos hd]
        exact ⟨hkey, hfile⟩)
      change s.lastSequence + 1 ≤ (s.appendMany (d :: ds)).lastSequence at hle
      omega

/-- On a reopened directory the events are counted whose numbers have ten digits. -/
theorem counted_init_iff (d : EventDir) : (init d).Counted ↔ ∀ n ∈ d.loadIndex.1, ∀ e,
    d.files.lookup n = some (.holds e) → n < 10 ^ 10 := by
  have hfiles : (init d).dir.files = d.files := by
    rw [init, EventDir.loadIndex]
    split <;> rfl
  constructor
  · intro h n hn e he
    exact (h n e (get_eq_some.mpr ⟨hn, hfiles ▸ he⟩)).trans_lt d.loadLastSequence_lt
  · intro h n e he
    obtain ⟨hn, hfile⟩ := get_eq_some.mp he
    rw [hfiles] at hfile
    have hkey : n ∈ d.files.keys := AList.lookup_isSome.mp (by rw [hfile]; rfl)
    exact EventDir.le_loadLastSequence (List.mem_append_left _ hkey) (h n hn e hfile)

/-- Where no event is new, all stays counted. -/
theorem Counted.of_get {t : EventStore} (h : s.Counted) (hlast : t.lastSequence = s.lastSequence)
    (hget : ∀ n e, t.get n = some e → s.get n = some e) : t.Counted :=
  fun n e he => hlast ▸ h n e (hget n e he)

variable (policy : EventRetentionPolicy)

/-- A batch does not break off after its first event, and where the directory is reopened, the
numbers of its events have ten digits at most. -/
def Fits (s : EventStore) : Incident → Prop
  | .request (.call (.appendMany ds)) => Serializable ds
  | .request .reopen => ∀ n ∈ s.dir.loadIndex.1, ∀ e,
      s.dir.files.lookup n = some (.holds e) → n < 10 ^ 10
  | _ => True

variable {policy}

theorem counted_step_iff (h : s.Counted) (i : Incident) :
    (s.step policy i).Counted ↔ s.Fits i := by
  cases i with
  | request r =>
      cases r with
      | call c =>
          cases c with
          | append d => exact iff_of_true (h.after (s.counts_append d) (s.index_append d)) trivial
          | appendMany ds =>
              constructor
              · intro hcounted
                by_contra hds
                exact not_counted_of_raises hds hcounted
              · exact fun hds => h.after (s.counts_appendMany hds) (s.index_appendMany hds)
          | purge now =>
              exact iff_of_true (h.after (s.counts_purge policy now) fun n hn =>
                .inl (s.index_purge policy now n hn)) trivial
      | compact slug now nowText =>
          exact iff_of_true (h.after (s.counts_compact policy slug now nowText)
            (s.index_compact policy slug now nowText)) trivial
      | reopen => exact counted_init_iff s.dir
  | damage n =>
      refine iff_of_true (h.of_get rfl fun m e he => ?_) trivial
      obtain ⟨hm, hfile⟩ := get_eq_some.mp he
      rw [step, EventDir.lookup_event] at hfile
      split at hfile
      case isTrue => cases hfile
      case isFalse => exact get_eq_some.mpr ⟨hm, hfile⟩
  | vanish n =>
      refine iff_of_true (h.of_get rfl fun m e he => ?_) trivial
      obtain ⟨hm, hfile⟩ := get_eq_some.mp he
      have hunlink : m ∉ numbers [.unlink n] := List.not_mem_nil
      exact get_eq_some.mpr ⟨hm, EventDir.lookup_of_performAll hunlink hfile⟩
  | loseIndex => exact iff_of_true h trivial

end EventStore

end Prodinamik.Events
