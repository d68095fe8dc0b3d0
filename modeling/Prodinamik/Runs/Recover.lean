import Prodinamik.Runs.Store

namespace Prodinamik.Runs

open Lib.Text

namespace WalEntry

/-- What recover does with the entry of a file whose checksum is right. -/
def replay (s : Snapshot) (entry : WalEntry) : Snapshot :=
  if entry.slug = "" then s else s.update entry.slug entry.data

end WalEntry

/-- The names that wal_*.log matches. -/
def isWalName (name : String) : Bool :=
  "wal_".toList.isPrefixOf name.toList ∧ ".log".toList.isSuffixOf name.toList ∧
    8 ≤ name.toList.length

def WalFile.entry? (digest : WalEntry → String) : WalFile → Option WalEntry
  | .damaged => none
  | .holds entry checksum => if checksum = digest entry then some entry else none

namespace Disk

/-- sorted(wal_dir.glob("wal_*.log")) -/
def walFiles (d : Disk) : List String :=
  (d.wal.keys.filter fun name => isWalName name).insertionSort (· ≤ ·)

/-- The entries recover replays, in its order. -/
def entries (digest : WalEntry → String) (d : Disk) : List WalEntry :=
  d.walFiles.filterMap fun name => (d.wal.lookup name).bind (WalFile.entry? digest)

/-- The time that the name of a WAL file tells, in the form _compact_wal
compares. -/
def fileTime (name : String) : Option (List Char) :=
  match (name.toList.take (name.toList.length - 4)).splitOn '_' with
  | _ :: date :: time :: _ => some (date ++ 'T' :: time)
  | _ => none

/-- max(snap_times)[:19] -/
def latestTime (s : Snapshot) : Option (List Char) :=
  match s.entries.map fun e => e.2.updatedAt.getD "" with
  | [] => none
  | first :: rest => some ((rest.foldl max first).toList.take 19)

def outdated (s : Snapshot) (name : String) : Bool :=
  match fileTime name, latestTime s with
  | some file, some latest => file < latest
  | _, _ => false

def compactWal (d : Disk) (s : Snapshot) : Disk :=
  { d with wal := (d.walFiles.filter (outdated s)).foldl (fun wal name => wal.erase name) d.wal }

def recover (digest : WalEntry → String) (d : Disk) : Snapshot × Disk :=
  let s := (d.entries digest).foldl WalEntry.replay d.loadSnapshot
  (s, d.compactWal s)

end Disk

namespace SnapEntry

theorem update_assoc (a b c : SnapEntry) : (a.update b).update c = a.update (b.update c) := by
  simp only [update, Option.orElse_eq_orElse, Option.orElse_eq_or, Option.or_assoc]

@[simp] theorem update_empty (a : SnapEntry) : a.update {} = a := by
  cases a
  simp [update]

@[simp] theorem empty_update (a : SnapEntry) : update {} a = a := by
  cases a
  simp [update]

end SnapEntry

namespace WalEntry

def ofSlug (entries : List WalEntry) (slug : String) : List WalEntry :=
  entries.filter fun entry => entry.slug = slug

/-- What the entries of a slug say about it together. -/
def dataOf (entries : List WalEntry) (slug : String) : SnapEntry :=
  (ofSlug entries slug).foldl (fun data entry => data.update entry.data) {}

theorem ofSlug_append (xs ys : List WalEntry) (slug : String) :
    ofSlug (xs ++ ys) slug = ofSlug xs slug ++ ofSlug ys slug := List.filter_append _ _

theorem foldl_update (a : SnapEntry) (entries : List WalEntry) :
    entries.foldl (fun data entry => data.update entry.data) a =
      a.update (entries.foldl (fun data entry => data.update entry.data) {}) := by
  induction entries generalizing a with
  | nil => simp
  | cons entry entries ih =>
      rw [List.foldl_cons, List.foldl_cons, ih, ih (SnapEntry.update {} entry.data),
        SnapEntry.empty_update, SnapEntry.update_assoc]

theorem dataOf_append (xs ys : List WalEntry) (slug : String) :
    dataOf (xs ++ ys) slug = (dataOf xs slug).update (dataOf ys slug) := by
  rw [dataOf, ofSlug_append, List.foldl_append, foldl_update]
  rfl

theorem replay_lookup {entry : WalEntry} (h : entry.slug ≠ "") (s : Snapshot) (slug : String) :
    (replay s entry).lookup slug =
      if entry.slug = slug then some (((s.lookup slug).getD {}).update entry.data)
      else s.lookup slug := by
  rw [replay, if_neg h, Snapshot.update]
  by_cases hs : entry.slug = slug
  · rw [if_pos hs, hs, AList.lookup_insert]
  · rw [if_neg hs, AList.lookup_insert_ne (Ne.symm hs)]

/-- Replaying changes an entry of the snapshot as the entries of its slug say. -/
theorem foldl_replay_lookup {entries : List WalEntry} (h : ∀ entry ∈ entries, entry.slug ≠ "")
    (s : Snapshot) (slug : String) : (entries.foldl replay s).lookup slug =
      if ofSlug entries slug = [] then s.lookup slug
      else some (((s.lookup slug).getD {}).update (dataOf entries slug)) := by
  induction entries generalizing s with
  | nil => rfl
  | cons entry entries ih =>
      have hcons : ofSlug (entry :: entries) slug =
          (if entry.slug = slug then [entry] else []) ++ ofSlug entries slug := by
        rw [ofSlug, List.filter_cons]
        by_cases hs : entry.slug = slug
        · simp [hs, ofSlug]
        · simp [hs, ofSlug]
      have hdata : dataOf (entry :: entries) slug =
          (if entry.slug = slug then entry.data else {}).update (dataOf entries slug) := by
        rw [dataOf, hcons, List.foldl_append, foldl_update]
        by_cases hs : entry.slug = slug
        · simp [hs, dataOf]
        · simp [hs, dataOf]
      rw [List.foldl_cons, ih (fun e he => h e (List.mem_cons_of_mem _ he)),
        replay_lookup (h entry List.mem_cons_self), hcons, hdata]
      by_cases hs : entry.slug = slug
      · simp only [if_pos hs, List.singleton_append]
        rw [if_neg (List.cons_ne_nil _ _)]
        split
        · rename_i hnil
          rw [dataOf, hnil, List.foldl_nil, SnapEntry.update_empty]
        · rw [Option.getD_some, SnapEntry.update_assoc]
      · simp only [if_neg hs, List.nil_append, SnapEntry.empty_update]

/-- Every entry stamps its slug. -/
theorem dataOf_updatedAt {entries : List WalEntry} {slug : String} (h : ofSlug entries slug ≠ []) :
    ((dataOf entries slug).updatedAt).isSome = true := by
  have hlast : ∀ entry : WalEntry, entry.data.updatedAt.isSome = true := by
    intro entry
    cases entry <;> rfl
  rw [dataOf]
  generalize ofSlug entries slug = es at h
  induction es using List.reverseRecOn with
  | nil => exact absurd rfl h
  | append_singleton es entry _ =>
      rw [List.foldl_append, List.foldl_cons, List.foldl_nil, SnapEntry.update]
      obtain ⟨time, htime⟩ := Option.isSome_iff_exists.mp (hlast entry)
      simp [htime]

end WalEntry

namespace Disk

theorem mem_walFiles {d : Disk} {name : String} :
    name ∈ d.walFiles ↔ name ∈ d.wal ∧ isWalName name = true := by
  rw [walFiles, List.mem_insertionSort, List.mem_filter]
  rfl

theorem walFiles_sorted (d : Disk) : d.walFiles.SortedLT := by
  have hnodup : d.walFiles.Nodup :=
    ((List.perm_insertionSort _ _).nodup_iff).mpr (d.wal.keys_nodup.filter _)
  exact List.sortedLE_insertionSort.sortedLT_of_nodup hnodup

theorem recover_fst (digest : WalEntry → String) (d : Disk) :
    (d.recover digest).1 = (d.entries digest).foldl WalEntry.replay d.loadSnapshot := rfl

end Disk

end Prodinamik.Runs
