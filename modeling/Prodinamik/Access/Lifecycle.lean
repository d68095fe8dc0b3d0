import Prodinamik.Access.AuthManager
import Prodinamik.Lib.Run

namespace Prodinamik.Access

open Lib Lib.Run

/-- A key that create_key has returned, and when it is to expire. -/
structure Issued where
  raw : String
  keyId : String
  expiry : Option Int
  revoked : Bool := false
  deriving DecidableEq, Repr

inductive Action
  | create (c : Creation)
  | validate (rawKey : String) (now : Int)
  | revoke (keyId : String)
  | restart
  deriving DecidableEq, Repr

structure Lifecycle where
  manager : AuthManager := {}
  issued : List Issued := []

/-- The expiry that is asked for: zero days are over at once. -/
def Creation.expiry (c : Creation) : Option Int :=
  c.expiresInDays.map fun days => c.now + daysToMicroseconds days

namespace Lifecycle

variable (d : Directories) (lower hash : String → String)

def revokeIssued (keyId : String) (k : Issued) : Issued :=
  if k.keyId = keyId then { k with revoked := true } else k

def step (s : Lifecycle) : Action → Lifecycle
  | .create c =>
    match s.manager.createKey d lower hash c with
    | .error _ => s
    | .ok (m, keyId, raw) => ⟨m, s.issued ++ [⟨raw, keyId, c.expiry, false⟩]⟩
  | .validate rawKey now => { s with manager := (s.manager.validateKey d hash rawKey now).1 }
  | .revoke keyId =>
      let r := s.manager.revokeKey d keyId
      ⟨r.1, if r.2 = some true then s.issued.map (revokeIssued keyId) else s.issued⟩
  | .restart => { s with manager := s.manager.restart d }

def Valid (s : Lifecycle) (rawKey : String) (now : Int) : Prop :=
  ∃ r, (s.manager.validateKey d hash rawKey now).2 = some r ∧ r.valid = true

/-- The keys are told apart by the raw key, the files by their place and no key
takes the record of another one. -/
structure Right (s : Lifecycle) : Prop where
  validates : ∀ rawKey now, s.Valid d hash rawKey now ↔
    ∃ k ∈ s.issued, k.raw = rawKey ∧ k.revoked = false ∧ ∀ time ∈ k.expiry, ¬ time < now
  inside : ∀ f ∈ s.manager.files.rows, d.keysDir <+: f.path
  kept : ∀ k ∈ s.issued, ∃ key ∈ s.manager.cache.rows, key.keyId = k.keyId ∧
    key.keyHash = hash k.raw ∧ ∃ f ∈ s.manager.files.rows, f.key = key

/-- create_key raises. -/
def Refused (c : Creation) : Prop :=
  c.role ∉ validRoles ∨ (∃ e, c.expiresAt = .error e) ∨ d.keyPath (c.keyId lower) = none

/-- The days are not zero, the record has a place of its own directly in the
keys directory and the raw key was not drawn before. -/
structure Sound (s : Lifecycle) (c : Creation) : Prop where
  days : c.expiresInDays ≠ some 0
  direct : ∀ path ∈ d.keyPath (c.keyId lower), path.dropLast = d.keysDir
  own : ∀ path ∈ d.keyPath (c.keyId lower), ∀ f ∈ s.manager.files.rows, f.path ≠ path
  drawn : ∀ k ∈ s.issued, k.raw ≠ c.rawKey

def Allowed (s : Lifecycle) : Action → Prop
  | .create c => Refused d lower c ∨ s.Sound d lower c
  | _ => True

end Lifecycle

namespace AuthManager

variable (d : Directories)

/-- The files are those of the records in the cache, each in the place of its id. -/
structure Consistent (m : AuthManager) : Prop where
  filed : ∀ f ∈ m.files.rows, f.path ≠ [] ∧ f.path.dropLast = d.keysDir ∧
    d.keyPath f.key.keyId = some f.path ∧ f.key ∈ m.cache.rows
  cached : ∀ key ∈ m.cache.rows, ∃ f ∈ m.files.rows, f.key = key

variable {d}

theorem Consistent.put {m : AuthManager} (h : m.Consistent d) {key : APIKey} {path : List String}
    (hpath : d.keyPath key.keyId = some path) (hne : path ≠ []) (hdir : path.dropLast = d.keysDir)
    (hown : ∀ f ∈ m.files.rows, f.path = path → f.key.keyId = key.keyId) :
    Consistent d ⟨m.files.put ⟨path, key⟩, m.cache.put key⟩ := by
  refine ⟨fun f hf => ?_, fun key' hkey' => ?_⟩
  · obtain rfl | ⟨hf, hother⟩ := Table.mem_rows_put.mp hf
    · exact ⟨hne, hdir, hpath, Table.mem_rows_put.mpr (.inl rfl)⟩
    · obtain ⟨hne', hdir', hpath', hkey⟩ := h.filed f hf
      refine ⟨hne', hdir', hpath', Table.mem_rows_put.mpr (.inr ⟨hkey, fun hid => hother ?_⟩)⟩
      rw [hid, hpath] at hpath'
      exact (Option.some.inj hpath').symm
  · obtain rfl | ⟨hkey', hother⟩ := Table.mem_rows_put.mp hkey'
    · exact ⟨_, Table.mem_rows_put.mpr (.inl rfl), rfl⟩
    · obtain ⟨f, hf, rfl⟩ := h.cached key' hkey'
      exact ⟨f, Table.mem_rows_put.mpr (.inr ⟨hf, fun hsame => hother (hown f hf hsame)⟩), rfl⟩

theorem Consistent.path_eq {m : AuthManager} (h : m.Consistent d) {f g : KeyFile}
    (hf : f ∈ m.files.rows) (hg : g ∈ m.files.rows) (hid : f.key.keyId = g.key.keyId) :
    f = g := by
  obtain ⟨-, -, hpath, -⟩ := h.filed f hf
  obtain ⟨-, -, hpath', -⟩ := h.filed g hg
  rw [hid, hpath'] at hpath
  exact List.inj_on_of_nodup_map m.files.nodup hf hg (Option.some.inj hpath).symm

/-- A record of the cache can be saved again. -/
theorem Consistent.save {m : AuthManager} (h : m.Consistent d) {key : APIKey} (key' : APIKey)
    (hkey : key ∈ m.cache.rows) (hid : key'.keyId = key.keyId) :
    ∃ m', m.save d key' = some m' ∧ m'.Consistent d ∧ m'.cache = m.cache.put key' := by
  obtain ⟨f, hf, rfl⟩ := h.cached key hkey
  obtain ⟨hne, hdir, hpath, -⟩ := h.filed f hf
  rw [← hid] at hpath
  refine ⟨_, by rw [AuthManager.save, hpath]; rfl, h.put hpath hne hdir fun g hg hsame => ?_, rfl⟩
  rw [hid, List.inj_on_of_nodup_map m.files.nodup hg hf hsame]

theorem validateKey_cases {m : AuthManager} (h : m.Consistent d) (hash : String → String)
    (rawKey : String) (now : Int) :
    (∃ error, m.validateKey d hash rawKey now = (m, some { error := error })) ∨
      ∃ key ∈ m.cache.rows, key.keyHash = hash rawKey ∧ ¬ Expired key.expiresAt now ∧
        key.enabled = true ∧ (m.validateKey d hash rawKey now).1.Consistent d ∧
        (m.validateKey d hash rawKey now).1.cache =
          m.cache.put { key with lastUsedAt := some now } := by
  rw [validateKey]
  split
  case isFalse => exact .inl ⟨_, rfl⟩
  case isTrue =>
    cases hfind : m.cache.rows.find? fun cached => cached.keyHash = hash rawKey with
    | none => exact .inl ⟨_, rfl⟩
    | some key =>
        have hkey := List.mem_of_find?_eq_some hfind
        simp only
        by_cases hexpired : Expired key.expiresAt now
        · rw [if_pos hexpired]
          exact .inl ⟨_, rfl⟩
        · rw [if_neg hexpired]
          by_cases henabled : key.enabled = true
          · rw [if_pos henabled]
            obtain ⟨m', hsave, hm', hcache⟩ :=
              h.save { key with lastUsedAt := some now } hkey rfl
            rw [hsave]
            have hhash : key.keyHash = hash rawKey := by simpa using List.find?_some hfind
            exact .inr ⟨key, hkey, hhash, hexpired, henabled, hm', hcache⟩
          · rw [if_neg henabled]
            exact .inl ⟨_, rfl⟩

theorem mem_cache_restart {m : AuthManager} (h : m.Consistent d) {key : APIKey} :
    key ∈ (m.restart d).cache.rows ↔ key ∈ m.cache.rows := by
  have hfiles : ∀ f, f ∈ m.keyFiles d ↔ f ∈ m.files.rows := by
    intro f
    rw [keyFiles, List.mem_insertionSort, List.mem_filter, decide_eq_true_eq, and_iff_left_iff_imp]
    exact fun hf => (h.filed f hf).2.1
  have hnodup : ((m.keyFiles d).map fun f => f.key.keyId).Nodup := by
    have hrows : (m.keyFiles d).Nodup :=
      (List.perm_insertionSort _ _).nodup_iff.mpr (m.files.nodup.of_map.filter _)
    refine hrows.map_on fun f hf g hg hid => ?_
    exact h.path_eq ((hfiles f).mp hf) ((hfiles g).mp hg) hid
  have hload : (m.restart d).cache = ((m.keyFiles d).map KeyFile.key).foldl Table.put .empty := by
    rw [restart, List.foldl_map]
  rw [hload, Table.mem_rows_foldl_put (by rwa [List.map_map]), List.mem_map]
  constructor
  · rintro (⟨f, hf, rfl⟩ | ⟨hkey, -⟩)
    · exact (h.filed f ((hfiles f).mp hf)).2.2.2
    · cases hkey
  · intro hkey
    obtain ⟨f, hf, rfl⟩ := h.cached key hkey
    exact .inl ⟨f, (hfiles f).mpr hf, rfl⟩

theorem Consistent.restart {m : AuthManager} (h : m.Consistent d) :
    (m.restart d).Consistent d := by
  refine ⟨fun f hf => ?_, fun key hkey => h.cached key ((mem_cache_restart h).mp hkey)⟩
  obtain ⟨hne, hdir, hpath, hkey⟩ := h.filed f hf
  exact ⟨hne, hdir, hpath, (mem_cache_restart h).mpr hkey⟩

end AuthManager

namespace Lifecycle

variable {d : Directories} {lower hash : String → String}

structure Matches (hash : String → String) (k : Issued) (key : APIKey) : Prop where
  keyId : key.keyId = k.keyId
  keyHash : key.keyHash = hash k.raw
  expiresAt : key.expiresAt = k.expiry
  enabled : key.enabled = !k.revoked

variable (d hash) in
/-- Every record is that of an issued key and the other way round. -/
structure Inv (s : Lifecycle) : Prop where
  consistent : s.manager.Consistent d
  recorded : ∀ k ∈ s.issued, ∃ key ∈ s.manager.cache.rows, Matches hash k key
  known : ∀ key ∈ s.manager.cache.rows, ∃ k ∈ s.issued, Matches hash k key
  drawn : ∀ k ∈ s.issued, ∀ k' ∈ s.issued, k.raw = k'.raw → k.keyId = k'.keyId
  formed : ∀ k ∈ s.issued, Creation.rawPrefix.toList.isPrefixOf k.raw.toList

theorem inv_start : Inv d hash {} := by
  refine ⟨⟨?_, ?_⟩, ?_, ?_, ?_, ?_⟩ <;> exact fun _ h => absurd h List.not_mem_nil

section

variable (hinj : Function.Injective hash)
include hinj

theorem Inv.row_eq {s : Lifecycle} (h : s.Inv d hash) {key key' : APIKey}
    (hkey : key ∈ s.manager.cache.rows) (hkey' : key' ∈ s.manager.cache.rows)
    (hhash : key.keyHash = key'.keyHash) : key = key' := by
  obtain ⟨k, hk, hm⟩ := h.known key hkey
  obtain ⟨k', hk', hm'⟩ := h.known key' hkey'
  have hraw : k.raw = k'.raw := hinj (by rw [← hm.keyHash, hhash, hm'.keyHash])
  refine List.inj_on_of_nodup_map s.manager.cache.nodup hkey hkey' ?_
  rw [hm.keyId, hm'.keyId, h.drawn k hk k' hk' hraw]

/-- The record that validate_key finds is that of the key. -/
theorem Inv.find_eq {s : Lifecycle} (h : s.Inv d hash) {k : Issued} {key : APIKey}
    (hkey : key ∈ s.manager.cache.rows) (hm : Matches hash k key) :
    (s.manager.cache.rows.find? fun cached => cached.keyHash = hash k.raw) = some key := by
  cases hfind : s.manager.cache.rows.find? fun cached => cached.keyHash = hash k.raw with
  | none =>
      have hnot := List.find?_eq_none.mp hfind key hkey
      simp [hm.keyHash] at hnot
  | some key' =>
      have hhash : key'.keyHash = hash k.raw := by simpa using List.find?_some hfind
      rw [h.row_eq hinj (List.mem_of_find?_eq_some hfind) hkey (hhash.trans hm.keyHash.symm)]

theorem Inv.validates {s : Lifecycle} (h : s.Inv d hash) (rawKey : String) (now : Int) :
    s.Valid d hash rawKey now ↔
      ∃ k ∈ s.issued, k.raw = rawKey ∧ k.revoked = false ∧ ∀ time ∈ k.expiry, ¬ time < now := by
  constructor
  · rintro ⟨r, hr, hvalid⟩
    obtain ⟨error, hinvalid⟩ | ⟨key, hkey, hhash, hexpired, henabled, -⟩ :=
      AuthManager.validateKey_cases h.consistent hash rawKey now
    · rw [hinvalid] at hr
      cases hr
      cases hvalid
    · obtain ⟨k, hk, hm⟩ := h.known key hkey
      refine ⟨k, hk, hinj (hm.keyHash.symm.trans hhash), ?_, fun time htime hlt => ?_⟩
      · simpa [henabled] using hm.enabled
      · exact hexpired ⟨time, hm.expiresAt ▸ htime, hlt⟩
  · rintro ⟨k, hk, rfl, hrevoked, hexpiry⟩
    obtain ⟨key, hkey, hm⟩ := h.recorded k hk
    have hexpired : ¬ AuthManager.Expired key.expiresAt now := by
      rintro ⟨time, htime, hlt⟩
      exact hexpiry time (hm.expiresAt ▸ htime) hlt
    have henabled : key.enabled = true := by rw [hm.enabled, hrevoked]; rfl
    obtain ⟨m', hsave, -⟩ := h.consistent.save { key with lastUsedAt := some now } hkey rfl
    rw [Valid, AuthManager.validateKey, if_pos (h.formed k hk)]
    simp only [h.find_eq hinj hkey hm]
    rw [if_neg hexpired, if_pos henabled, hsave]
    exact ⟨_, rfl, rfl⟩

end

/-- A record is saved again with something changed, and what is known of its key with it. -/
theorem Inv.rerecord {s : Lifecycle} (h : s.Inv d hash) {m : AuthManager} {key key' : APIKey}
    (hkey : key ∈ s.manager.cache.rows) (hm : m.Consistent d)
    (hcache : m.cache = s.manager.cache.put key') (hid : key'.keyId = key.keyId)
    {g : Issued → Issued} (hg : ∀ k, (g k).raw = k.raw ∧ (g k).keyId = k.keyId)
    (hnew : ∀ k, Matches hash k key → Matches hash (g k) key')
    (hold : ∀ k key₀, Matches hash k key₀ → key₀.keyId ≠ key.keyId → Matches hash (g k) key₀) :
    Inv d hash ⟨m, s.issued.map g⟩ := by
  have hrows : ∀ key₀, key₀ ∈ m.cache.rows ↔
      key₀ = key' ∨ key₀ ∈ s.manager.cache.rows ∧ key₀.keyId ≠ key.keyId := by
    intro key₀
    rw [hcache, Table.mem_rows_put, hid]
  refine ⟨hm, fun k' hk' => ?_, fun key₀ hkey₀ => ?_, fun k hk k' hk' hraw => ?_, fun k hk => ?_⟩
  · obtain ⟨k, hk, rfl⟩ := List.mem_map.mp hk'
    obtain ⟨key₀, hkey₀, hmatch⟩ := h.recorded k hk
    by_cases hsame : key₀.keyId = key.keyId
    · rw [List.inj_on_of_nodup_map s.manager.cache.nodup hkey₀ hkey hsame] at hmatch
      exact ⟨key', (hrows _).mpr (.inl rfl), hnew k hmatch⟩
    · exact ⟨key₀, (hrows _).mpr (.inr ⟨hkey₀, hsame⟩), hold k key₀ hmatch hsame⟩
  · obtain rfl | ⟨hkey₀, hne⟩ := (hrows key₀).mp hkey₀
    · obtain ⟨k, hk, hmatch⟩ := h.known key hkey
      exact ⟨g k, List.mem_map_of_mem hk, hnew k hmatch⟩
    · obtain ⟨k, hk, hmatch⟩ := h.known key₀ hkey₀
      exact ⟨g k, List.mem_map_of_mem hk, hold k key₀ hmatch hne⟩
  · obtain ⟨k, hmem, rfl⟩ := List.mem_map.mp hk
    obtain ⟨k', hmem', rfl⟩ := List.mem_map.mp hk'
    rw [(hg k).1, (hg k').1] at hraw
    rw [(hg k).2, (hg k').2]
    exact h.drawn k hmem k' hmem' hraw
  · obtain ⟨k, hmem, rfl⟩ := List.mem_map.mp hk
    rw [(hg k).1]
    exact h.formed k hmem

theorem inv_validate {s : Lifecycle} (h : s.Inv d hash) (rawKey : String) (now : Int) :
    (s.step d lower hash (.validate rawKey now)).Inv d hash := by
  rw [step]
  obtain ⟨error, hinvalid⟩ | ⟨key, hkey, -, -, -, hm, hcache⟩ :=
    AuthManager.validateKey_cases h.consistent hash rawKey now
  · rw [hinvalid]
    exact h
  · have hinv := h.rerecord (g := id) hkey hm hcache rfl (fun _ => ⟨rfl, rfl⟩)
      (fun _ hmatch => ⟨hmatch.keyId, hmatch.keyHash, hmatch.expiresAt, hmatch.enabled⟩)
      fun _ _ hmatch _ => hmatch
    rwa [List.map_id] at hinv

theorem inv_revoke {s : Lifecycle} (h : s.Inv d hash) (keyId : String) :
    (s.step d lower hash (.revoke keyId)).Inv d hash := by
  rw [step, AuthManager.revokeKey]
  cases hget : s.manager.cache.get keyId with
  | none => exact h
  | some key =>
      obtain ⟨hkey, rfl⟩ := Table.get_eq_some.mp hget
      obtain ⟨m', hsave, hm', hcache⟩ :=
        h.consistent.save { key with enabled := false } hkey rfl
      simp only [hsave, if_true]
      refine h.rerecord hkey hm' hcache rfl (fun k => ?_) (fun k hmatch => ?_)
        fun k key₀ hmatch hne => ?_
      · rw [revokeIssued]
        split
        · exact ⟨rfl, rfl⟩
        · exact ⟨rfl, rfl⟩
      · rw [revokeIssued, if_pos hmatch.keyId.symm]
        exact ⟨hmatch.keyId, hmatch.keyHash, hmatch.expiresAt, rfl⟩
      · rwa [revokeIssued, if_neg fun hid => hne (hmatch.keyId.trans hid)]

theorem inv_restart {s : Lifecycle} (h : s.Inv d hash) :
    (s.step d lower hash .restart).Inv d hash := by
  refine ⟨h.consistent.restart, fun k hk => ?_, fun key hkey => ?_, h.drawn, h.formed⟩
  · obtain ⟨key, hkey, hmatch⟩ := h.recorded k hk
    exact ⟨key, (AuthManager.mem_cache_restart h.consistent).mpr hkey, hmatch⟩
  · exact h.known key ((AuthManager.mem_cache_restart h.consistent).mp hkey)

theorem keyPath_ne_nil {keyId : String} {path : List String} (h : d.keyPath keyId = some path) :
    path ≠ [] := by
  simp only [Directories.keyPath] at h
  split at h
  · cases h
  · split at h
    · cases h
    · split at h
      · cases h
      · cases h
        exact List.append_ne_nil_of_right_ne_nil _ (List.cons_ne_nil _ _)

/-- A name without a slash has its record directly in the keys directory. -/
theorem keyPath_of_plain {keyId : String} (hslash : '/' ∉ keyId.toList)
    (hnul : Char.ofNat 0 ∉ keyId.toList)
    (hfile : d.isDir (d.keysDir ++ [keyId ++ ".json"]) = false) :
    d.keyPath keyId = some (d.keysDir ++ [keyId ++ ".json"]) := by
  have hsep : '/' ∉ keyId.toList ++ ".json".toList := by
    rw [List.mem_append, not_or]
    exact ⟨hslash, by decide⟩
  have hparts : Directories.parts (keyId.toList ++ ".json".toList) = [keyId ++ ".json"] := by
    rw [Directories.parts, List.splitOn_eq_singleton hsep, List.map_singleton,
      ← String.toList_append, String.ofList_toList]
  have hrelative : (keyId.toList ++ ".json".toList).head? ≠ some '/' := by
    intro hhead
    exact hsep (List.mem_of_mem_head? hhead)
  rw [Directories.keyPath]
  simp only [hparts, if_neg hrelative]
  rw [if_neg fun hmem => (List.mem_append.mp hmem).elim hnul (by decide)]
  simp [Directories.walk, hfile]

variable (d lower hash) in
theorem createKey_cases (m : AuthManager) (c : Creation) :
    (∃ e, m.createKey d lower hash c = .error e) ∨
      ∃ path expiresAt key, d.keyPath (c.keyId lower) = some path ∧ c.expiresAt = .ok expiresAt ∧
        c.role ∈ validRoles ∧ key.keyId = c.keyId lower ∧ key.keyHash = hash c.rawKey ∧
        key.expiresAt = expiresAt ∧ key.enabled = true ∧
        m.createKey d lower hash c =
          .ok (⟨m.files.put ⟨path, key⟩, m.cache.put key⟩, c.keyId lower, c.rawKey) := by
  rw [AuthManager.createKey]
  split
  case isTrue => exact .inl ⟨_, rfl⟩
  case isFalse hrole =>
    cases hexp : c.expiresAt with
    | error e => exact .inl ⟨e, rfl⟩
    | ok expiresAt =>
        cases hpath : d.keyPath (c.keyId lower) with
        | none =>
            left
            simp only [AuthManager.save, hpath]
            exact ⟨_, rfl⟩
        | some path =>
            right
            simp only [AuthManager.save, hpath]
            exact ⟨path, expiresAt, _, rfl, rfl, not_not.mp hrole, rfl, rfl, rfl, rfl, rfl⟩

theorem expiresAt_eq_expiry {c : Creation} (hdays : c.expiresInDays ≠ some 0) {time : Option Int}
    (h : c.expiresAt = .ok time) : time = c.expiry := by
  rw [Creation.expiresAt] at h
  rw [Creation.expiry]
  cases hd : c.expiresInDays with
  | none =>
      rw [hd] at h
      cases h
      rfl
  | some days =>
      rw [hd] at h hdays
      simp only at h
      rw [if_neg fun hzero => hdays (congrArg some hzero)] at h
      split at h
      · cases h
        rfl
      · cases h

theorem inv_create {s : Lifecycle} (h : s.Inv d hash) {c : Creation}
    (hc : s.Allowed d lower (.create c)) : (s.step d lower hash (.create c)).Inv d hash := by
  rw [step]
  obtain ⟨e, herror⟩ | ⟨path, expiresAt, key, hpath, hexp, hrole, hid, hhash, hexpires, henabled,
    hcreate⟩ := createKey_cases d lower hash s.manager c
  · rw [herror]
    exact h
  · obtain hrefused | hsound := hc
    · obtain hno | ⟨e, he⟩ | hnone := hrefused
      · exact absurd hrole hno
      · rw [hexp] at he
        cases he
      · rw [hpath] at hnone
        cases hnone
    · have hfresh : ∀ key₀ ∈ s.manager.cache.rows, key₀.keyId ≠ key.keyId := by
        intro key₀ hkey₀ hsame
        obtain ⟨f, hf, rfl⟩ := h.consistent.cached key₀ hkey₀
        have hplace := (h.consistent.filed f hf).2.2.1
        rw [hsame, hid, hpath] at hplace
        exact hsound.own path hpath f hf (Option.some.inj hplace).symm
      have hmatch : Matches hash ⟨c.rawKey, c.keyId lower, c.expiry, false⟩ key :=
        ⟨hid, hhash, hexpires.trans (expiresAt_eq_expiry hsound.days hexp), henabled⟩
      rw [hcreate]
      refine ⟨?_, fun k hk => ?_, fun key₀ hkey₀ => ?_, fun k hk k' hk' hraw => ?_, fun k hk => ?_⟩
      · exact h.consistent.put (hid ▸ hpath) (keyPath_ne_nil hpath) (hsound.direct path hpath)
          fun f hf hsame => absurd hsame (hsound.own path hpath f hf)
      · obtain hk | hk := List.mem_append.mp hk
        · obtain ⟨key₀, hkey₀, hm⟩ := h.recorded k hk
          exact ⟨key₀, Table.mem_rows_put.mpr (.inr ⟨hkey₀, hfresh key₀ hkey₀⟩), hm⟩
        · rw [List.mem_singleton.mp hk]
          exact ⟨key, Table.mem_rows_put.mpr (.inl rfl), hmatch⟩
      · obtain rfl | ⟨hkey₀, -⟩ := Table.mem_rows_put.mp hkey₀
        · exact ⟨_, List.mem_append_right _ (List.mem_singleton_self _), hmatch⟩
        · obtain ⟨k, hk, hm⟩ := h.known key₀ hkey₀
          exact ⟨k, List.mem_append_left _ hk, hm⟩
      · obtain hk | hk := List.mem_append.mp hk <;> obtain hk' | hk' := List.mem_append.mp hk'
        · exact h.drawn k hk k' hk' hraw
        · rw [List.mem_singleton.mp hk'] at hraw
          exact absurd hraw (hsound.drawn k hk)
        · rw [List.mem_singleton.mp hk] at hraw
          exact absurd hraw.symm (hsound.drawn k' hk')
        · rw [List.mem_singleton.mp hk, List.mem_singleton.mp hk']
      · obtain hk | hk := List.mem_append.mp hk
        · exact h.formed k hk
        · rw [List.mem_singleton.mp hk, Creation.rawKey, String.toList_append]
          exact List.isPrefixOf_iff_prefix.mpr (List.prefix_append _ _)

theorem inv_step {s : Lifecycle} (h : s.Inv d hash) {a : Action} (ha : s.Allowed d lower a) :
    (s.step d lower hash a).Inv d hash := by
  cases a with
  | create c => exact inv_create h ha
  | validate rawKey now => exact inv_validate h rawKey now
  | revoke keyId => exact inv_revoke h keyId
  | restart => exact inv_restart h

theorem Inv.inside {s : Lifecycle} (h : s.Inv d hash) :
    ∀ f ∈ s.manager.files.rows, d.keysDir <+: f.path := by
  intro f hf
  rw [← (h.consistent.filed f hf).2.1]
  exact List.dropLast_prefix _

theorem Inv.kept {s : Lifecycle} (h : s.Inv d hash) : ∀ k ∈ s.issued,
    ∃ key ∈ s.manager.cache.rows, key.keyId = k.keyId ∧ key.keyHash = hash k.raw ∧
      ∃ f ∈ s.manager.files.rows, f.key = key := by
  intro k hk
  obtain ⟨key, hkey, hm⟩ := h.recorded k hk
  exact ⟨key, hkey, hm.keyId, hm.keyHash, h.consistent.cached key hkey⟩

/-- In a run of sound creations, a key is valid from its creation to its
revocation or expiry. -/
theorem always_right (d : Directories) (lower : String → String) {hash : String → String}
    (hinj : Function.Injective hash) {actions : List Action}
    (h : Steps (step d lower hash) (Allowed d lower) {} actions) :
    Always (step d lower hash) (Right d hash) {} actions := by
  have hinv := along_of_invariant (fun s a hs ha => inv_step (s := s) hs ha) inv_start h
  exact hinv.imp (fun _ hs => ⟨hs.validates hinj, hs.inside, hs.kept⟩) fun _ _ _ => trivial

def sampleDirectories : Directories where
  keysDir := ["data", "auth", "keys"]
  isDir dir := dir = [] ∨ dir = ["data"] ∨ dir = ["data", "auth"] ∨ dir = ["data", "auth", "keys"]

def sampleLower (text : String) : String := .ofList (text.toList.map Char.toLower)

def sampleCreation : Creation where
  name := "Deploy Bot"
  role := roleAdmin
  expiresInDays := some 30
  suffix := "0f1e2d3c"
  token := "00112233445566778899aabbccddeeff0011223344556677"
  now := 0

def sampleActions : List Action :=
  [.create sampleCreation, .validate sampleCreation.rawKey 5, .restart,
    .create { sampleCreation with suffix := "4b5a6978", token := "ffeeddccbbaa99887766554433221100" },
    .revoke "deploy-bot-0f1e2d3c", .restart]

theorem always_right_sample :
    Steps (step sampleDirectories sampleLower id) (Allowed sampleDirectories sampleLower) {}
        sampleActions ∧
      Always (step sampleDirectories sampleLower id) (Right sampleDirectories id) {}
        sampleActions := by
  have hallowed : Steps (step sampleDirectories sampleLower id)
      (Allowed sampleDirectories sampleLower) {} sampleActions := by
    refine ⟨trivial, .inr ⟨?_, ?_, ?_, ?_⟩, trivial, trivial, trivial, trivial, trivial,
      .inr ⟨?_, ?_, ?_, ?_⟩, trivial, trivial, trivial, trivial, trivial⟩ <;> decide +kernel
  exact ⟨hallowed, always_right sampleDirectories sampleLower Function.injective_id hallowed⟩

/-- A key of zero days is valid one microsecond later; a name leads out of the
keys directory; an id that is drawn again takes the record of the first key. -/
theorem not_always_right :
    (¬ Always (step sampleDirectories sampleLower id) (Right sampleDirectories id) {}
      [.create { sampleCreation with expiresInDays := some 0 }]) ∧
    (¬ Always (step sampleDirectories sampleLower id) (Right sampleDirectories id) {}
      [.create { sampleCreation with name := "../../bot" }]) ∧
    ¬ Always (step sampleDirectories sampleLower id) (Right sampleDirectories id) {}
      [.create sampleCreation, .create { sampleCreation with token := "ffeeddccbbaa9988" }] := by
  refine ⟨fun h => ?_, fun h => ?_, fun h => ?_⟩
  · have hvalid := (h.last.validates sampleCreation.rawKey 1).mp
      ⟨{ valid := true, role := roleAdmin, name := "Deploy Bot", keyId := "deploy-bot-0f1e2d3c" },
        by decide +kernel, rfl⟩
    revert hvalid
    decide +kernel
  · have hinside := h.last.inside
    revert hinside
    decide +kernel
  · have hkept := h.last.kept
    revert hkept
    decide +kernel

end Lifecycle

end Prodinamik.Access
