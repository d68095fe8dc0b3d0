import Prodinamik.Events.EventStore
import Prodinamik.Lib.Json

namespace Prodinamik.Events

open Lib.Json

/-- What reading a file of the events directory gives: an OSError, bytes that are not UTF-8, or
a text. -/
inductive RawFile
  | noAccess
  | notUtf8
  | text (s : List Char)

/-- An event as it is read: the dataclass does not check the types of its fields, and those with
a default may be missing. -/
structure RawEvent (F : Type) where
  sequence : Value F
  runSlug : Value F
  timestamp : Value F
  eventType : Value F
  optional : List (String × Value F)

namespace RawEvent

def requiredFields : List String := ["sequence", "run_slug", "timestamp", "event_type"]

def optionalFields : List String :=
  ["data", "parent_id", "trace_id", "hop_count", "cost_usd", "validator_tier"]

/-- Event(**data); none is a TypeError. -/
def ofDict {F : Type} (data : List (String × Value F)) : Option (RawEvent F) :=
  if ∀ m ∈ data, m.1 ∈ requiredFields ++ optionalFields then do
    let sequence ← data.lookup "sequence"
    let runSlug ← data.lookup "run_slug"
    let timestamp ← data.lookup "timestamp"
    let eventType ← data.lookup "event_type"
    return ⟨sequence, runSlug, timestamp, eventType, data.filter fun m => m.1 ∈ optionalFields⟩
  else none

end RawEvent

/-- _parse_event; a UnicodeDecodeError is none of the exceptions that it turns into None. -/
def RawFile.parseEvent (fl : Floats) : RawFile → Except String (Option (RawEvent fl.Num))
  | .noAccess => .ok none
  | .notUtf8 => .error "'utf-8' codec can't decode bytes"
  | .text s =>
    match loads fl s with
    | some (.obj data) => .ok (RawEvent.ofDict data)
    | _ => .ok none

namespace EventRetentionPolicy

/-- should_purge of an event as it is read. -/
def shouldPurgeRaw {F : Type} (p : EventRetentionPolicy) (e : RawEvent F) (now : Int) :
    Except String Bool :=
  match e.eventType with
  | .str name =>
    match EventType.ofValue name with
    | none => .error ("'" ++ name ++ "' is not a valid EventType")
    | some type =>
      match p.retention type with
      | none => .ok false
      | some ttl =>
        match e.timestamp with
        | .str timestamp =>
          match p.fromisoformat timestamp with
          | none => .error ("Invalid isoformat string: '" ++ timestamp ++ "'")
          | some .aware => .error "can't subtract offset-naive and offset-aware datetimes"
          | some (.naive time) => .ok (ttl < now - time)
        | _ => .error "fromisoformat: argument must be str"
  | _ => .error "not a valid EventType"

end EventRetentionPolicy

/-- A store over any content of its events directory. -/
structure RawStore where
  files : AList fun _ : Nat => RawFile
  index : List Nat
  nodup : index.Nodup
  saved : Option IndexFile := none

/-- The files while purge goes over the index, the keys it will drop and how many events it has
removed. -/
structure Purging where
  files : AList fun _ : Nat => RawFile
  toDelete : List Nat
  purged : Nat
  result : Except String Unit

namespace RawStore

variable (fl : Floats) (policy : EventRetentionPolicy) (now : Int)

/-- The loop of purge; what _parse_event turns into None has no event_type. -/
def purgeLoop : List Nat → AList (fun _ : Nat => RawFile) → Purging
  | [], files => ⟨files, [], 0, .ok ()⟩
  | seq :: rest, files =>
    match files.lookup seq with
    | none =>
        let r := purgeLoop rest files
        { r with toDelete := seq :: r.toDelete }
    | some file =>
      match file.parseEvent fl with
      | .error err => ⟨files, [], 0, .error err⟩
      | .ok none => ⟨files, [], 0, .error "'NoneType' object has no attribute 'event_type'"⟩
      | .ok (some e) =>
        match policy.shouldPurgeRaw e now with
        | .error err => ⟨files, [], 0, .error err⟩
        | .ok false => purgeLoop rest files
        | .ok true =>
            let r := purgeLoop rest (files.erase seq)
            { r with toDelete := seq :: r.toDelete, purged := r.purged + 1 }

def purge (s : RawStore) : RawStore × Except String Nat :=
  let loop := purgeLoop fl policy now s.index s.files
  match loop.result with
  | .error err => ({ s with files := loop.files }, .error err)
  | .ok () =>
      let index := s.index.filter fun seq => seq ∉ loop.toDelete
      ({ files := loop.files
         index := index
         nodup := s.nodup.filter _
         saved := if loop.toDelete = [] then s.saved else some (.holds index) }, .ok loop.purged)

/-- An event can be read from a file. -/
def Readable (file : RawFile) : Prop := ∃ e, file.parseEvent fl = .ok (some e)

/-- An event with its type. -/
def HasType (file : RawFile) (e : RawEvent fl.Num) (type : EventType) : Prop :=
  file.parseEvent fl = .ok (some e) ∧
    ∃ name, e.eventType = .str name ∧ EventType.ofValue name = some type

/-- The text of a time without a zone. -/
def HasTime (e : RawEvent fl.Num) (time : Int) : Prop :=
  ∃ timestamp, e.timestamp = .str timestamp ∧ policy.fromisoformat timestamp = some (.naive time)

/-- An event of a type whose retention is over. -/
def Expired (file : RawFile) : Prop :=
  ∃ e type ttl time, HasType fl file e type ∧ policy.retention type = some ttl ∧
    HasTime fl policy e time ∧ ttl < now - time

/-- purge returns, removes the events that are expired and no other file, and the index then
lists the events that are left. -/
structure PurgeExact (s : RawStore) : Prop where
  returns : ∃ purged, (s.purge fl policy now).2 = .ok purged
  removed : ∀ n file, (s.purge fl policy now).1.files.lookup n = some file ↔
    s.files.lookup n = some file ∧ ¬ Expired fl policy now file
  unlimited : ∀ n file e type, s.files.lookup n = some file → HasType fl file e type →
    policy.retention type = none → (s.purge fl policy now).1.files.lookup n = some file
  index : ∀ n, n ∈ (s.purge fl policy now).1.index ↔
    ∃ file, (s.purge fl policy now).1.files.lookup n = some file ∧ Readable fl file

/-- An event of a known type, with a time where its type is not kept forever. -/
def Judged (file : RawFile) : Prop :=
  ∃ e type, HasType fl file e type ∧
    (policy.retention type = none ∨ ∃ time, HasTime fl policy e time)

/-- Every file of the index that is there can be judged, and no event is missing in the index. -/
structure Orderly (s : RawStore) : Prop where
  judged : ∀ n ∈ s.index, ∀ file, s.files.lookup n = some file → Judged fl policy file
  indexed : ∀ n file, s.files.lookup n = some file → Readable fl file → n ∈ s.index

variable {fl policy now} {file : RawFile} {e : RawEvent fl.Num} {type : EventType}

theorem HasType.readable (h : HasType fl file e type) : Readable fl file := ⟨e, h.1⟩

theorem Judged.readable (h : Judged fl policy file) : Readable fl file := by
  obtain ⟨e, type, htype, -⟩ := h
  exact htype.readable

/-- A retention without limit is not compared with the time. -/
theorem shouldPurgeRaw_unlimited (h : HasType fl file e type) (hretention : policy.retention type = none) :
    policy.shouldPurgeRaw e now = .ok false := by
  obtain ⟨-, name, he, htype⟩ := h
  simp only [EventRetentionPolicy.shouldPurgeRaw, he, htype, hretention]

theorem shouldPurgeRaw_limited (h : HasType fl file e type) {ttl time : Int}
    (hretention : policy.retention type = some ttl) (htime : HasTime fl policy e time) :
    policy.shouldPurgeRaw e now = .ok (ttl < now - time) := by
  obtain ⟨-, name, he, htype⟩ := h
  obtain ⟨timestamp, hstamp, hiso⟩ := htime
  simp only [EventRetentionPolicy.shouldPurgeRaw, he, htype, hretention, hstamp, hiso]

/-- should_purge answers for the events of a known type that have a time if they need one. -/
theorem judged_of_ok {old : Bool} (hparse : file.parseEvent fl = .ok (some e))
    (hok : policy.shouldPurgeRaw e now = .ok old) : Judged fl policy file := by
  rw [EventRetentionPolicy.shouldPurgeRaw] at hok
  split at hok
  case h_2 => cases hok
  case h_1 name he =>
    split at hok
    case h_1 => cases hok
    case h_2 type htype =>
      have hhas : HasType fl file e type := ⟨hparse, name, he, htype⟩
      split at hok
      case h_1 hretention => exact ⟨e, type, hhas, .inl hretention⟩
      case h_2 ttl hretention =>
        split at hok
        case h_2 => cases hok
        case h_1 timestamp hstamp =>
          split at hok
          case h_1 => cases hok
          case h_2 => cases hok
          case h_3 time hiso => exact ⟨e, type, hhas, .inr ⟨time, timestamp, hstamp, hiso⟩⟩

theorem HasType.unique {e' : RawEvent fl.Num} {type' : EventType} (h : HasType fl file e type)
    (h' : HasType fl file e' type') : e = e' ∧ type = type' := by
  obtain ⟨hparse, name, he, htype⟩ := h
  obtain ⟨hparse', name', he', htype'⟩ := h'
  cases hparse.symm.trans hparse'
  cases he.symm.trans he'
  cases htype.symm.trans htype'
  exact ⟨rfl, rfl⟩

theorem HasTime.unique {time time' : Int} (h : HasTime fl policy e time)
    (h' : HasTime fl policy e time') : time = time' := by
  obtain ⟨timestamp, hstamp, hiso⟩ := h
  obtain ⟨timestamp', hstamp', hiso'⟩ := h'
  cases hstamp.symm.trans hstamp'
  cases hiso.symm.trans hiso'
  rfl

/-- What should_purge answers of an event that can be judged. -/
theorem Judged.answer (h : Judged fl policy file) : ∃ e old, file.parseEvent fl = .ok (some e) ∧
    policy.shouldPurgeRaw e now = .ok old ∧ (old = true ↔ Expired fl policy now file) := by
  obtain ⟨e, type, htype, hlimit⟩ := h
  have hsame {e' type' ttl time} (h' : HasType fl file e' type') (hr : policy.retention type' = some ttl)
      (ht : HasTime fl policy e' time) : policy.retention type = some ttl ∧ HasTime fl policy e time := by
    obtain ⟨rfl, rfl⟩ := htype.unique h'
    exact ⟨hr, ht⟩
  cases hretention : policy.retention type with
  | none =>
      refine ⟨e, false, htype.1, shouldPurgeRaw_unlimited htype hretention,
        iff_of_false Bool.false_ne_true ?_⟩
      rintro ⟨e', type', ttl, time, htype', hr, ht, -⟩
      cases hretention.symm.trans (hsame htype' hr ht).1
  | some ttl =>
      obtain hnone | ⟨time, htime⟩ := hlimit
      · cases hretention.symm.trans hnone
      · refine ⟨e, _, htype.1, shouldPurgeRaw_limited htype hretention htime, ?_⟩
        rw [decide_eq_true_iff]
        constructor
        · exact fun hlt => ⟨e, type, ttl, time, htype, hretention, htime, hlt⟩
        · rintro ⟨e', type', ttl', time', htype', hr, ht, hlt⟩
          obtain ⟨hr, ht⟩ := hsame htype' hr ht
          cases hretention.symm.trans hr
          rwa [htime.unique ht]

theorem not_expired_of_unlimited (h : HasType fl file e type) (hretention : policy.retention type = none) :
    ¬ Expired fl policy now file := by
  rintro ⟨e', type', ttl, time, htype', hr, -⟩
  obtain ⟨rfl, rfl⟩ := h.unique htype'
  cases hretention.symm.trans hr

variable (now)

/-- One turn of the loop at a file that can be judged. -/
theorem purgeLoop_judged {files : AList fun _ : Nat => RawFile} {seq : Nat}
    (hfile : files.lookup seq = some file) (h : Judged fl policy file) (rest : List Nat) :
    (¬ Expired fl policy now file ∧
      purgeLoop fl policy now (seq :: rest) files = purgeLoop fl policy now rest files) ∨
    (Expired fl policy now file ∧
      purgeLoop fl policy now (seq :: rest) files =
        { purgeLoop fl policy now rest (files.erase seq) with
          toDelete := seq :: (purgeLoop fl policy now rest (files.erase seq)).toDelete
          purged := (purgeLoop fl policy now rest (files.erase seq)).purged + 1 }) := by
  obtain ⟨e, old, hparse, hanswer, hold⟩ := h.answer
  cases old with
  | false =>
      refine .inl ⟨fun hexpired => Bool.false_ne_true (hold.mpr hexpired), ?_⟩
      simp only [purgeLoop, hfile, hparse, hanswer]
  | true =>
      refine .inr ⟨hold.mp rfl, ?_⟩
      simp only [purgeLoop, hfile, hparse, hanswer]

/-- A file that cannot be judged ends the loop with an exception. -/
theorem purgeLoop_not_judged {files : AList fun _ : Nat => RawFile} {seq : Nat}
    (hfile : files.lookup seq = some file) (h : ¬ Judged fl policy file) (rest : List Nat) :
    ∃ err, purgeLoop fl policy now (seq :: rest) files = ⟨files, [], 0, .error err⟩ := by
  cases hparse : file.parseEvent fl with
  | error err => exact ⟨err, by simp only [purgeLoop, hfile, hparse]⟩
  | ok parsed =>
      cases parsed with
      | none => exact ⟨_, by simp only [purgeLoop, hfile, hparse]; rfl⟩
      | some e =>
          cases hanswer : policy.shouldPurgeRaw e now with
          | error err => exact ⟨err, by simp only [purgeLoop, hfile, hparse, hanswer]⟩
          | ok old => exact absurd (judged_of_ok hparse hanswer) h

/-- The loop comes to its end exactly if every file that is there can be judged. -/
theorem purgeLoop_result {index : List Nat} (hnodup : index.Nodup)
    (files : AList fun _ : Nat => RawFile) :
    (purgeLoop fl policy now index files).result = .ok () ↔
      ∀ n ∈ index, ∀ file, files.lookup n = some file → Judged fl policy file := by
  induction index generalizing files with
  | nil => exact iff_of_true rfl fun n hn => absurd hn List.not_mem_nil
  | cons seq rest ih =>
      obtain ⟨hseq, hnodup⟩ := List.nodup_cons.mp hnodup
      rw [List.forall_mem_cons]
      cases hfile : files.lookup seq with
      | none =>
          simp only [purgeLoop, hfile, ih hnodup]
          exact (and_iff_right fun _ h => absurd h.symm (Option.some_ne_none _)).symm
      | some file =>
          by_cases hjudged : Judged fl policy file
          · have hhead : ∀ file', some file = some file' → Judged fl policy file' := by
              rintro _ ⟨⟩
              exact hjudged
            rw [and_iff_right hhead]
            obtain ⟨-, hloop⟩ | ⟨-, hloop⟩ := purgeLoop_judged now hfile hjudged rest
            · rw [hloop, ih hnodup]
            · rw [hloop, ih hnodup]
              refine forall₂_congr fun n hn => ?_
              rw [AList.lookup_erase_ne fun (h : n = seq) => hseq (h ▸ hn)]
          · obtain ⟨err, hloop⟩ := purgeLoop_not_judged now hfile hjudged rest
            rw [hloop]
            exact iff_of_false (fun h => by cases h) fun h => hjudged (h.1 file rfl)

/-- A loop that comes to its end removes the expired events of the index and drops the keys that
have no file then. -/
theorem purgeLoop_effect {index : List Nat} (hnodup : index.Nodup)
    {files : AList fun _ : Nat => RawFile}
    (hjudged : ∀ n ∈ index, ∀ file, files.lookup n = some file → Judged fl policy file) :
    (∀ n file, (purgeLoop fl policy now index files).files.lookup n = some file ↔
      files.lookup n = some file ∧ ¬ (n ∈ index ∧ Expired fl policy now file)) ∧
    ∀ n, n ∈ (purgeLoop fl policy now index files).toDelete ↔
      n ∈ index ∧ (purgeLoop fl policy now index files).files.lookup n = none := by
  induction index generalizing files with
  | nil =>
      exact ⟨fun n file => (and_iff_left fun h => List.not_mem_nil h.1).symm,
        fun n => iff_of_false List.not_mem_nil fun h => List.not_mem_nil h.1⟩
  | cons seq rest ih =>
      obtain ⟨hseq, hnodup⟩ := List.nodup_cons.mp hnodup
      obtain ⟨hhead, hrest⟩ := List.forall_mem_cons.mp hjudged
      cases hfile : files.lookup seq with
      | none =>
          obtain ⟨hfiles, hdropped⟩ := ih hnodup hrest
          have hgone : (purgeLoop fl policy now rest files).files.lookup seq = none := by
            refine Option.eq_none_iff_forall_ne_some.mpr fun file h => ?_
            cases hfile.symm.trans ((hfiles seq file).mp h).1
          simp only [purgeLoop, hfile, List.mem_cons]
          refine ⟨fun n file => ?_, fun n => ?_⟩
          · rw [hfiles]
            refine and_congr_right fun h => not_congr (and_congr_left fun _ => ?_)
            exact (or_iff_right fun (heq : n = seq) => by cases hfile.symm.trans (heq ▸ h)).symm
          · rw [hdropped]
            constructor
            · rintro (rfl | ⟨hn, h⟩)
              · exact ⟨.inl rfl, hgone⟩
              · exact ⟨.inr hn, h⟩
            · rintro ⟨rfl | hn, h⟩
              · exact .inl rfl
              · exact .inr ⟨hn, h⟩
      | some file =>
          obtain ⟨hkept, hloop⟩ | ⟨hexpired, hloop⟩ := purgeLoop_judged now hfile (hhead file hfile) rest
          · obtain ⟨hfiles, hdropped⟩ := ih hnodup hrest
            rw [hloop]
            refine ⟨fun n file' => ?_, fun n => ?_⟩
            · rw [hfiles, List.mem_cons]
              refine and_congr_right fun h => not_congr (and_congr_left fun hold => ?_)
              refine (or_iff_right fun (heq : n = seq) => hkept ?_).symm
              rw [heq, hfile] at h
              exact Option.some.inj h ▸ hold
            · rw [hdropped, List.mem_cons]
              refine and_congr_left fun h => (or_iff_right fun (heq : n = seq) => ?_).symm
              have hthere := (hfiles seq file).mpr ⟨hfile, fun hin => hseq hin.1⟩
              rw [heq, hthere] at h
              cases h
          · have herase {n : Nat} (hn : n ≠ seq) : (files.erase seq).lookup n = files.lookup n :=
              AList.lookup_erase_ne hn
            obtain ⟨hfiles, hdropped⟩ := ih hnodup fun n hn file h =>
              hrest n hn file (by rwa [herase fun heq => hseq (heq ▸ hn)] at h)
            have hgone : (purgeLoop fl policy now rest (files.erase seq)).files.lookup seq = none := by
              refine Option.eq_none_iff_forall_ne_some.mpr fun file h => ?_
              have h := ((hfiles seq file).mp h).1
              rw [AList.lookup_erase] at h
              cases h
            rw [hloop]
            refine ⟨fun n file' => ?_, fun n => ?_⟩
            · rw [List.mem_cons]
              by_cases hn : n = seq
              · subst hn
                rw [hgone, hfile]
                refine iff_of_false (Option.some_ne_none _).symm ?_
                rintro ⟨⟨⟩, hnot⟩
                exact hnot ⟨.inl rfl, hexpired⟩
              · rw [hfiles, herase hn, or_iff_right hn]
            · rw [List.mem_cons, List.mem_cons, hdropped]
              constructor
              · rintro (rfl | ⟨hn, h⟩)
                · exact ⟨.inl rfl, hgone⟩
                · exact ⟨.inr hn, h⟩
              · rintro ⟨rfl | hn, h⟩
                · exact .inl rfl
                · exact .inr ⟨hn, h⟩

variable {now} {s : RawStore}

theorem purge_of_ok (h : (purgeLoop fl policy now s.index s.files).result = .ok ()) :
    (s.purge fl policy now).2 = .ok (purgeLoop fl policy now s.index s.files).purged ∧
      (s.purge fl policy now).1.files = (purgeLoop fl policy now s.index s.files).files ∧
      (s.purge fl policy now).1.index =
        s.index.filter fun n => n ∉ (purgeLoop fl policy now s.index s.files).toDelete := by
  simp only [purge, h]
  exact ⟨trivial, trivial, trivial⟩

theorem purge_of_error {err : String}
    (h : (purgeLoop fl policy now s.index s.files).result = .error err) :
    (s.purge fl policy now).2 = .error err := by
  simp only [purge, h]

/-- purge returns exactly if every file of the index that is there can be judged. -/
theorem purge_returns : (∃ purged, (s.purge fl policy now).2 = .ok purged) ↔
    ∀ n ∈ s.index, ∀ file, s.files.lookup n = some file → Judged fl policy file := by
  rw [← purgeLoop_result now s.nodup]
  cases h : (purgeLoop fl policy now s.index s.files).result with
  | ok u => exact iff_of_true ⟨_, (purge_of_ok h).1⟩ rfl
  | error err =>
      rw [purge_of_error h]
      refine iff_of_false ?_ fun h => by cases h
      rintro ⟨_, h⟩
      cases h

/-- What a file is to the store. -/
def Stands (fl : Floats) (file : RawFile) : EventFile → Prop
  | .unreadable => file.parseEvent fl = .ok none
  | .holds e => ∃ r, file.parseEvent fl = .ok (some r) ∧ r.timestamp = .str e.timestamp ∧
      r.eventType = .str e.eventType

variable (policy now)

theorem shouldPurgeRaw_eq {r : RawEvent fl.Num} {e : Event} (hstamp : r.timestamp = .str e.timestamp)
    (htype : r.eventType = .str e.eventType) :
    policy.shouldPurgeRaw r now = policy.shouldPurge e now := by
  cases r with
  | mk sequence runSlug timestamp eventType others =>
      obtain rfl : timestamp = .str e.timestamp := hstamp
      obtain rfl : eventType = .str e.eventType := htype
      rfl

/-- One turn of both loops at a file: both raise, both keep it or both remove it. -/
theorem turn_stands {files : AList fun _ : Nat => RawFile} {dir : EventDir} {seq : Nat}
    {f : EventFile} (hfile : files.lookup seq = some file) (hdir : dir.files.lookup seq = some f)
    (h : Stands fl file f) (rest : List Nat) :
    (∃ err, purgeLoop fl policy now (seq :: rest) files = ⟨files, [], 0, .error err⟩ ∧
      EventStore.purgeLoop policy dir now (seq :: rest) = ([], [], .error err)) ∨
    (purgeLoop fl policy now (seq :: rest) files = purgeLoop fl policy now rest files ∧
      EventStore.purgeLoop policy dir now (seq :: rest) = EventStore.purgeLoop policy dir now rest) ∨
    (purgeLoop fl policy now (seq :: rest) files =
        { purgeLoop fl policy now rest (files.erase seq) with
          toDelete := seq :: (purgeLoop fl policy now rest (files.erase seq)).toDelete
          purged := (purgeLoop fl policy now rest (files.erase seq)).purged + 1 } ∧
      EventStore.purgeLoop policy dir now (seq :: rest) =
        (seq :: (EventStore.purgeLoop policy dir now rest).1,
          seq :: (EventStore.purgeLoop policy dir now rest).2.1,
          (EventStore.purgeLoop policy dir now rest).2.2)) := by
  cases f with
  | unreadable =>
      have hparse : file.parseEvent fl = .ok none := h
      simp only [purgeLoop, EventStore.purgeLoop, hfile, hdir, hparse, EventDir.parseEvent]
      exact .inl ⟨_, rfl, rfl⟩
  | holds e =>
      obtain ⟨r, hparse, hstamp, htype⟩ := h
      have hanswer := shouldPurgeRaw_eq policy now hstamp htype
      simp only [purgeLoop, EventStore.purgeLoop, hfile, hdir, hparse, EventDir.parseEvent, hanswer]
      cases policy.shouldPurge e now with
      | error err => exact .inl ⟨err, rfl, rfl⟩
      | ok old =>
          cases old with
          | false => exact .inr (.inl ⟨rfl, rfl⟩)
          | true => exact .inr (.inr ⟨rfl, rfl⟩)

theorem purgeLoop_stands {index : List Nat} (hnodup : index.Nodup)
    {files : AList fun _ : Nat => RawFile} {dir : EventDir}
    (h : ∀ n ∈ index, Option.Rel (Stands fl) (files.lookup n) (dir.files.lookup n)) :
    (purgeLoop fl policy now index files).toDelete = (EventStore.purgeLoop policy dir now index).2.1 ∧
      (purgeLoop fl policy now index files).result = (EventStore.purgeLoop policy dir now index).2.2 ∧
      (purgeLoop fl policy now index files).purged =
        (EventStore.purgeLoop policy dir now index).1.length ∧
      ∀ n, (purgeLoop fl policy now index files).files.lookup n =
        if n ∈ (EventStore.purgeLoop policy dir now index).1 then none else files.lookup n := by
  induction index generalizing files with
  | nil => exact ⟨rfl, rfl, rfl, fun n => (if_neg List.not_mem_nil).symm⟩
  | cons seq rest ih =>
      obtain ⟨hseq, hnodup⟩ := List.nodup_cons.mp hnodup
      obtain ⟨hhead, hrest⟩ := List.forall_mem_cons.mp h
      cases hfile : files.lookup seq with
      | none =>
          cases hdir : dir.files.lookup seq with
          | some f => simp [hfile, hdir] at hhead
          | none =>
              obtain ⟨hdelete, hresult, hpurged, hlookup⟩ := ih hnodup hrest
              simp only [purgeLoop, EventStore.purgeLoop, hfile, hdir]
              exact ⟨congrArg (seq :: ·) hdelete, hresult, hpurged, hlookup⟩
      | some file =>
          cases hdir : dir.files.lookup seq with
          | none => simp [hfile, hdir] at hhead
          | some f =>
              have hstands : Stands fl file f := by simpa [hfile, hdir] using hhead
              obtain ⟨err, hraw, hstore⟩ | ⟨hraw, hstore⟩ | ⟨hraw, hstore⟩ :=
                turn_stands policy now hfile hdir hstands rest
              · rw [hraw, hstore]
                exact ⟨rfl, rfl, rfl, fun n => (if_neg List.not_mem_nil).symm⟩
              · rw [hraw, hstore]
                exact ih hnodup hrest
              · have herase {n : Nat} (hn : n ≠ seq) : (files.erase seq).lookup n = files.lookup n :=
                  AList.lookup_erase_ne hn
                have hothers : ∀ n ∈ rest, Option.Rel (Stands fl) ((files.erase seq).lookup n)
                    (dir.files.lookup n) := by
                  intro n hn
                  rw [herase fun heq => hseq (heq ▸ hn)]
                  exact hrest n hn
                obtain ⟨hdelete, hresult, hpurged, hlookup⟩ := ih hnodup hothers
                rw [hraw, hstore]
                refine ⟨congrArg (seq :: ·) hdelete, hresult, congrArg (· + 1) hpurged, fun n => ?_⟩
                rw [hlookup]
                by_cases hn : n = seq
                · rw [hn, AList.lookup_erase, ite_self, if_pos List.mem_cons_self]
                · simp only [herase hn, List.mem_cons, or_iff_right hn]

/-- purge on files does what the store's purge does on the events they hold. -/
theorem purge_refines {dir : EventDir} {lastSequence : Nat}
    (h : ∀ n, Option.Rel (Stands fl) (s.files.lookup n) (dir.files.lookup n)) :
    let store : EventStore := ⟨dir, lastSequence, s.index⟩
    (s.purge fl policy now).2 = (store.purge policy now).result ∧
      (s.purge fl policy now).1.index = (store.after (store.purge policy now)).index ∧
      ∀ n, Option.Rel (Stands fl) ((s.purge fl policy now).1.files.lookup n)
        ((store.after (store.purge policy now)).dir.files.lookup n) := by
  intro store
  obtain ⟨hdelete, hresult, hpurged, hlookup⟩ :=
    purgeLoop_stands policy now s.nodup fun n _ => h n
  have hfiles : ∀ n, Option.Rel (Stands fl)
      ((purgeLoop fl policy now s.index s.files).files.lookup n)
      ((dir.performAll ((EventStore.purgeLoop policy dir now s.index).1.map .unlink)).files.lookup n) := by
    intro n
    rw [hlookup, EventDir.lookup_unlinks]
    split
    · exact .none
    · exact h n
  cases hloop : (EventStore.purgeLoop policy dir now s.index).2.2 with
  | error err =>
      have hraw := hresult.trans hloop
      simp only [store, EventStore.purge, purge, hloop, hraw]
      exact ⟨trivial, rfl, hfiles⟩
  | ok u =>
      have hraw := hresult.trans hloop
      simp only [store, EventStore.purge, purge, hloop, hraw, hdelete, hpurged]
      refine ⟨trivial, rfl, fun n => ?_⟩
      rw [EventStore.after, EventDir.performAll, List.foldl_append, ← EventDir.performAll]
      split
      · exact hfiles n
      · exact hfiles n

/-- Floats of one value, for files that have none. -/
def oneFloat : Floats := ⟨Unit, fun _ => [], fun _ => (), fun _ _ _ _ _ => rfl⟩

/-- The only file is empty, as a write leaves it that breaks off. -/
def emptyFile : RawStore where
  files := AList.singleton 1 (.text [])
  index := [1]
  nodup := List.nodup_singleton 1

end RawStore

end Prodinamik.Events
