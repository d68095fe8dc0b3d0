import Prodinamik.Events.Sequence

namespace Prodinamik.Events

namespace EventStore

variable {s : EventStore} {ds : List Draft}

/-- append of each event in order; the first one that raises ends it. -/
def appendEach : EventStore → List Draft → EventStore × Except String (List Nat)
  | s, [] => (s, .ok [])
  | s, d :: ds =>
    match (s.append d).result with
    | .error e => (s.after (s.append d), .error e)
    | .ok seq =>
        let rest := appendEach (s.after (s.append d)) ds
        (rest.1, rest.2.map fun seqs => seq :: seqs)

/-- event_count -/
def eventCount (s : EventStore) : Nat := s.index.length

end EventStore

namespace EventDir

theorem performAll_append (d : EventDir) (ws ws' : List Write) :
    d.performAll (ws ++ ws') = (d.performAll ws).performAll ws' :=
  List.foldl_append

theorem perform_files {d d' : EventDir} (hfiles : d.files = d'.files)
    (harchived : d.archived = d'.archived) (w : Write) :
    (d.perform w).files = (d'.perform w).files ∧ (d.perform w).archived = (d'.perform w).archived := by
  cases w with
  | event n file =>
      refine ⟨?_, harchived⟩
      change d.files.insert n file = d'.files.insert n file
      rw [hfiles]
  | index entries => exact ⟨hfiles, harchived⟩
  | unlink n => exact ⟨congrArg (AList.erase n) hfiles, harchived⟩

theorem performAll_files {d d' : EventDir} (hfiles : d.files = d'.files)
    (harchived : d.archived = d'.archived) (ws : List Write) :
    (d.performAll ws).files = (d'.performAll ws).files ∧
      (d.performAll ws).archived = (d'.performAll ws).archived := by
  induction ws generalizing d d' with
  | nil => exact ⟨hfiles, harchived⟩
  | cons w ws ih =>
      obtain ⟨hf, ha⟩ := perform_files hfiles harchived w
      exact ih hf ha

/-- An index that is saved again leaves nothing of the one before. -/
theorem performAll_saved (d : EventDir) (first last : List Nat) (ws : List Write) :
    (d.perform (.index first)).performAll (ws ++ [.index last]) =
      d.performAll (ws ++ [.index last]) := by
  obtain ⟨hfiles, harchived⟩ := @performAll_files (d.perform (.index first)) d rfl rfl ws
  rw [performAll_append, performAll_append]
  change EventDir.mk _ _ _ = EventDir.mk _ _ _
  rw [hfiles, harchived]

end EventDir

namespace EventStore

variable {s : EventStore} {ds : List Draft}

theorem append_ok (s : EventStore) {d : Draft} (hd : d.serializable) :
    (s.append d).result = .ok (s.lastSequence + 1) := by
  rw [append, if_pos hd]

theorem append_raises (s : EventStore) {d : Draft} (hd : d.serializable = false) :
    s.append d = ⟨[], s.lastSequence, s.index, .error notSerializable⟩ := by
  rw [append, hd, if_neg Bool.false_ne_true]

theorem after_append (s : EventStore) {d : Draft} (hd : d.serializable) :
    s.after (s.append d) =
      { dir := (s.dir.perform (.event (s.lastSequence + 1)
            (.holds { d.event with sequence := s.lastSequence + 1 }))).perform
          (.index (addKey s.index (s.lastSequence + 1)))
        lastSequence := s.lastSequence + 1
        index := addKey s.index (s.lastSequence + 1) } := by
  rw [append, if_pos hd]
  rfl

/-- A batch is its first event and the batch of the others. -/
theorem after_appendMany_cons (s : EventStore) {d : Draft} (hd : d.serializable)
    (hds : ∀ x ∈ ds, x.serializable) :
    s.after (s.appendMany (d :: ds)) =
      (s.after (s.append d)).after ((s.after (s.append d)).appendMany ds) := by
  obtain rfl | hne := eq_or_ne ds []
  · rw [after_append s hd, appendMany_ok s (List.cons_ne_nil _ _) (by simpa using hd)]
    rw [appendLoop, if_pos hd]
    rfl
  · have hall : ∀ x ∈ d :: ds, x.serializable := by
      intro x hx
      obtain rfl | hx := List.mem_cons.mp hx
      · exact hd
      · exact hds x hx
    rw [after_append s hd, appendMany_ok _ hne hds, appendMany_ok s (List.cons_ne_nil _ _) hall,
      appendLoop, if_pos hd]
    simp only [after, EventDir.performAll_saved, List.length_cons]
    refine congrArg₂ (fun dir last => EventStore.mk dir last _) rfl ?_
    omega

theorem appendEach_ok (hds : ∀ d ∈ ds, d.serializable) :
    s.appendEach ds = (s.after (s.appendMany ds), .ok (List.range' (s.lastSequence + 1) ds.length)) := by
  induction ds generalizing s with
  | nil => rfl
  | cons d ds ih =>
      have hd : d.serializable := hds d List.mem_cons_self
      have hrest : ∀ x ∈ ds, x.serializable := fun x hx => hds x (List.mem_cons_of_mem _ hx)
      have hlast : (s.after (s.append d)).lastSequence = s.lastSequence + 1 := by
        rw [after_append s hd]
      rw [appendEach, append_ok s hd, after_appendMany_cons s hd hrest]
      simp only [ih hrest, hlast]
      rfl

theorem lastSequence_le_appendEach (s : EventStore) (ds : List Draft) :
    s.lastSequence ≤ (s.appendEach ds).1.lastSequence := by
  induction ds generalizing s with
  | nil => exact le_rfl
  | cons d ds ih =>
      rw [appendEach]
      cases hd : d.serializable with
      | true =>
          rw [append_ok s hd]
          refine le_trans ?_ (ih _)
          rw [after_append s hd]
          exact Nat.le_succ _
      | false =>
          rw [append_raises s hd]
          exact le_rfl

theorem appendLoop_raises {ds : List Draft} (hds : ∃ d ∈ ds, d.serializable = false) (seq : Nat)
    (index : List Nat) : (appendLoop ds seq index).2.2 = .error notSerializable := by
  induction ds generalizing seq index with
  | nil =>
      obtain ⟨d, hd, -⟩ := hds
      exact absurd hd List.not_mem_nil
  | cons d ds ih =>
      rw [appendLoop]
      cases hd : d.serializable with
      | false => rfl
      | true =>
          obtain ⟨x, hx, hbad⟩ := hds
          obtain rfl | hx := List.mem_cons.mp hx
          · rw [hd] at hbad
            exact absurd hbad (by decide)
          · simp only [if_true, ih ⟨x, hx, hbad⟩]
            rfl

theorem appendMany_raises (s : EventStore) (hds : ∃ d ∈ ds, d.serializable = false) :
    (s.appendMany ds).lastSequence = s.lastSequence ∧
      (s.appendMany ds).result = .error notSerializable := by
  have hne : ds ≠ [] := by
    rintro rfl
    obtain ⟨d, hd, -⟩ := hds
    exact List.not_mem_nil hd
  rw [appendMany, if_neg hne]
  simp only [appendLoop_raises hds]
  exact ⟨trivial, trivial⟩

/-- append_many and append of each event return the same and leave the same store, on which all
reads are the same. -/
structure SameAsEach (s : EventStore) (ds : List Draft) : Prop where
  result : (s.appendMany ds).result = (s.appendEach ds).2
  files : (s.after (s.appendMany ds)).dir.files = (s.appendEach ds).1.dir.files
  saved : (s.after (s.appendMany ds)).dir.index = (s.appendEach ds).1.dir.index
  index : (s.after (s.appendMany ds)).index = (s.appendEach ds).1.index
  lastSequence : (s.after (s.appendMany ds)).lastSequence = (s.appendEach ds).1.lastSequence
  get : ∀ n, (s.after (s.appendMany ds)).get n = (s.appendEach ds).1.get n
  getRange : ∀ start limit,
    (s.after (s.appendMany ds)).getRange start limit = (s.appendEach ds).1.getRange start limit
  query : ∀ q, (s.after (s.appendMany ds)).query q = (s.appendEach ds).1.query q

theorem SameAsEach.of_eq (hresult : (s.appendMany ds).result = (s.appendEach ds).2)
    (hstore : s.after (s.appendMany ds) = (s.appendEach ds).1) : s.SameAsEach ds where
  result := hresult
  files := by rw [hstore]
  saved := by rw [hstore]
  index := by rw [hstore]
  lastSequence := by rw [hstore]
  get n := by rw [hstore]
  getRange start limit := by rw [hstore]
  query q := by rw [hstore]

/-- A batch that raises after its first event keeps the counter where it was. -/
theorem not_sameAsEach {d : Draft} (hd : d.serializable) (hds : ∃ x ∈ ds, x.serializable = false) :
    ¬ s.SameAsEach (d :: ds) := by
  intro h
  obtain ⟨x, hx, hbad⟩ := hds
  have hlast : (s.appendMany (d :: ds)).lastSequence = s.lastSequence :=
    (s.appendMany_raises ⟨x, List.mem_cons_of_mem _ hx, hbad⟩).1
  have hnext : (s.after (s.append d)).lastSequence = s.lastSequence + 1 := by
    rw [after_append s hd]
  have heach := lastSequence_le_appendEach (s.after (s.append d)) ds
  have hsame := h.lastSequence
  rw [appendEach, append_ok s hd] at hsame
  change (s.appendMany (d :: ds)).lastSequence =
    ((s.after (s.append d)).appendEach ds).1.lastSequence at hsame
  omega

/-- The write of a file that raises: the file is not opened, it is opened and not
completed, or its last write or closing raises when all of it is there. -/
inductive BrokenWrite
  | nothing
  | partly
  | whole
  deriving DecidableEq, Repr

def BrokenWrite.writes (b : BrokenWrite) (seq : Nat) (e : Event) : List Write :=
  match b with
  | .nothing => []
  | .partly => [.event seq .unreadable]
  | .whole => [.event seq (.holds { e with sequence := seq })]

/-- The loop of append_many up to the write that raises. -/
def raisingLoop (b : BrokenWrite) : List Draft → Nat → Nat → List Nat → List Write × List Nat
  | [], _, _, index => ([], index)
  | d :: _, 0, seq, index => (b.writes seq d.event, index)
  | d :: ds, k + 1, seq, index =>
      let rest := raisingLoop b ds k (seq + 1) (addKey index seq)
      (.event seq (.holds { d.event with sequence := seq }) :: rest.1, rest.2)

/-- append_many when the write of event k, counted from 0, raises. -/
def appendManyRaising (s : EventStore) (ds : List Draft) (k : Nat) (b : BrokenWrite)
    (error : String) : Outcome (List Nat) :=
  let loop := raisingLoop b ds k (s.lastSequence + 1) s.index
  ⟨loop.1, s.lastSequence, loop.2, .error error⟩

theorem appendLoop_eq_raisingLoop {k : Nat} (hk : k < ds.length)
    (hbefore : ∀ d ∈ ds.take k, d.serializable) (hbad : ds[k].serializable = false) (seq : Nat)
    (index : List Nat) :
    appendLoop ds seq index = ((raisingLoop .nothing ds k seq index).1,
      (raisingLoop .nothing ds k seq index).2, .error notSerializable) := by
  induction ds generalizing k seq index with
  | nil => exact absurd hk (Nat.not_lt_zero _)
  | cons d ds ih =>
      cases k with
      | zero =>
          rw [appendLoop, if_neg (by simpa using hbad)]
          rfl
      | succ k =>
          have hd : d.serializable := hbefore d List.mem_cons_self
          have hrest := ih (Nat.lt_of_succ_lt_succ hk)
            (fun x hx => hbefore x (List.mem_cons_of_mem _ hx)) hbad (seq + 1) (addKey index seq)
          rw [appendLoop, if_pos hd, hrest]
          rfl

/-- An event that cannot be serialized raises before its file is opened. -/
theorem appendMany_eq_raising (s : EventStore) {k : Nat} (hk : k < ds.length)
    (hbefore : ∀ d ∈ ds.take k, d.serializable) (hbad : ds[k].serializable = false) :
    s.appendMany ds = s.appendManyRaising ds k .nothing notSerializable := by
  have hne : ds ≠ [] := List.ne_nil_of_length_pos (Nat.zero_lt_of_lt hk)
  rw [appendMany, if_neg hne, appendLoop_eq_raisingLoop hk hbefore hbad]
  rfl

/-- A batch that raised left the reads as they were, and the next append writes over no event
of the batch and brings none back. -/
structure AllOrNothing (s : EventStore) (failed : Outcome (List Nat)) : Prop where
  get : ∀ n, (s.after failed).get n = s.get n
  getRange : ∀ start limit, (s.after failed).getRange start limit = s.getRange start limit
  query : ∀ q, (s.after failed).query q = s.query q
  eventCount : (s.after failed).eventCount = s.eventCount
  notOverwritten : ∀ d : Draft, d.serializable → ∀ n e, .event n (.holds e) ∈ failed.writes →
    n ∉ numbers ((s.after failed).append d).writes
  notResurrected : ∀ d : Draft, d.serializable → ∀ n e, .event n (.holds e) ∈ failed.writes →
    ((s.after failed).after ((s.after failed).append d)).get n ≠ some e

theorem allOrNothing_of_get {failed : Outcome (List Nat)}
    (hget : (s.after failed).get = s.get) (hlast : failed.lastSequence = s.lastSequence)
    (hindex : failed.index = s.index) (hnone : ∀ n e, .event n (.holds e) ∉ failed.writes) :
    s.AllOrNothing failed where
  get n := congrFun hget n
  getRange start limit := by
    rw [EventStore.getRange, EventStore.getRange, read, read, hget]
    change ((List.range' start (failed.lastSequence + 1 - start)).filterMap s.get).take limit = _
    rw [hlast]
  query q := by
    rw [EventStore.query, EventStore.query, read, read, hget]
    change (((List.range' 1 failed.lastSequence).reverse.filterMap s.get).filter q.accepts).take
      q.limit = _
    rw [hlast]
  eventCount := congrArg List.length hindex
  notOverwritten d _ n e h := absurd h (hnone n e)
  notResurrected d _ n e h := absurd h (hnone n e)

/-- A complete file under the next number is written over. -/
theorem not_allOrNothing_of_written {failed : Outcome (List Nat)} {e : Event}
    (hlast : failed.lastSequence = s.lastSequence)
    (hwritten : .event (s.lastSequence + 1) (.holds e) ∈ failed.writes) :
    ¬ s.AllOrNothing failed := by
  intro h
  refine h.notOverwritten ⟨e, true⟩ rfl _ e hwritten ?_
  have hnumbers : numbers ((s.after failed).append ⟨e, true⟩).writes = [failed.lastSequence + 1] := rfl
  rw [hnumbers, hlast]
  exact List.mem_singleton_self _

theorem get_partly {failed : Outcome (List Nat)} {seq : Nat}
    (hwrites : failed.writes = [.event seq .unreadable]) (hindex : failed.index = s.index)
    (n : Nat) : (s.after failed).get n = if n = seq then none else s.get n := by
  rw [EventStore.get, EventStore.get, after, hindex, hwrites]
  change (if n ∈ s.index then ((s.dir.files.insert seq .unreadable).lookup n).bind _ else none) = _
  by_cases hn : n = seq
  · subst hn
    rw [if_pos rfl, AList.lookup_insert]
    exact ite_self _
  · rw [if_neg hn, AList.lookup_insert_ne hn]

/-- A failed batch is all or nothing exactly if its first write raises and either leaves no
file, or leaves one that is not complete where no event could be read before. -/
theorem appendManyRaising_iff (s : EventStore) {k : Nat} (hk : k < ds.length) (b : BrokenWrite)
    (error : String) : s.AllOrNothing (s.appendManyRaising ds k b error) ↔
      k = 0 ∧ (b = .nothing ∨ b = .partly ∧ s.get (s.lastSequence + 1) = none) := by
  obtain ⟨d, ds, rfl⟩ := List.exists_cons_of_length_pos (Nat.zero_lt_of_lt hk)
  cases k with
  | succ k =>
      refine iff_of_false ?_ fun h => absurd h.1 (Nat.succ_ne_zero k)
      exact not_allOrNothing_of_written (e := { d.event with sequence := s.lastSequence + 1 }) rfl
        List.mem_cons_self
  | zero =>
      cases b with
      | nothing =>
          refine iff_of_true (allOrNothing_of_get rfl rfl rfl ?_) ⟨rfl, .inl rfl⟩
          exact fun n e => List.not_mem_nil
      | partly =>
          have hget : ∀ n, (s.after (s.appendManyRaising (d :: ds) 0 .partly error)).get n =
              if n = s.lastSequence + 1 then none else s.get n := get_partly rfl rfl
          constructor
          · intro h
            refine ⟨rfl, .inr ⟨rfl, ?_⟩⟩
            rw [← h.get, hget, if_pos rfl]
          · rintro ⟨-, h | ⟨-, hnone⟩⟩
            · exact absurd h (by decide)
            · refine allOrNothing_of_get (funext fun n => ?_) rfl rfl fun n e hmem => ?_
              · rw [hget]
                split
                case isTrue hn => rw [hn, hnone]
                case isFalse => rfl
              · obtain h | h := List.mem_cons.mp hmem
                · exact absurd h (by simp)
                · exact absurd h List.not_mem_nil
      | whole =>
          refine iff_of_false ?_ ?_
          · exact not_allOrNothing_of_written (e := { d.event with sequence := s.lastSequence + 1 })
              rfl List.mem_cons_self
          · rintro ⟨-, h | ⟨h, -⟩⟩
            · exact absurd h (by decide)
            · exact absurd h (by decide)

theorem appendManyRaising_full_disk : (init {}).AllOrNothing ((init {}).appendManyRaising
    [{ event := { runSlug := "run", timestamp := "2026-05-01", eventType := "error" } }] 0 .partly
      "No space left on device") :=
  (appendManyRaising_iff (init {}) (by decide) .partly "No space left on device").mpr
    ⟨rfl, .inr ⟨rfl, rfl⟩⟩

/-- The first event is written before the second cannot be serialized. -/
theorem not_appendManyRaising : ¬ (init {}).AllOrNothing ((init {}).appendMany
    [{ event := { runSlug := "run", timestamp := "2026-05-01", eventType := "error" } },
      { event := { runSlug := "run", timestamp := "2026-05-01", eventType := "error" }
        serializable := false }]) := by
  intro h
  exact absurd h.eventCount (by decide +kernel)

end EventStore

end Prodinamik.Events
