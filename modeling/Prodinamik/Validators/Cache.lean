import Mathlib.Order.Monotone.Basic
import Prodinamik.Lib.Table

namespace Prodinamik.Validators

open Lib

inductive ValidatorTier
  | t1
  | t2
  | t3
  deriving DecidableEq, Repr

def ValidatorTier.value : ValidatorTier → Nat
  | t1 => 1
  | t2 => 2
  | t3 => 3

inductive CachePolicy
  | full
  | degraded
  | survival
  deriving DecidableEq, Repr

structure ValidationResult (δ : Type) where
  passed : Bool
  message : String
  details : δ
  skipped : Bool
  costUsd : Rat
  deriving DecidableEq, Repr

structure CacheEntry (δ : Type) where
  key : String
  validatorTier : Nat
  result : ValidationResult δ
  expiresAt : Nat

/-- What the file of an entry says: not whether the validator was skipped, nor
what it cost. -/
structure CacheFile (δ : Type) where
  key : String
  passed : Bool
  message : String
  details : δ
  expiresAt : Nat

/-- What surrounds the pipeline: str and sha256, the details that come back from
a cache file (none where json.dumps or write_text raises), and the clock, in
microseconds, one reading after the other. -/
structure Env (α δ : Type) where
  str : α → String
  sha256 : String → String
  written : String → δ → Option δ
  clock : Nat → Nat
  clock_mono : Monotone clock

variable {α δ : Type} (env : Env α δ)

def CacheFile.entry (f : CacheFile δ) (tier : ValidatorTier) : CacheEntry δ where
  key := f.key
  validatorTier := tier.value
  result := ⟨f.passed, f.message, f.details, false, 0⟩
  expiresAt := f.expiresAt

structure ContentAddressableCache (δ : Type) where
  memory : Table (CacheEntry.key (δ := δ)) := Table.empty
  disk : Table (CacheFile.key (δ := δ)) := Table.empty
  ticks : Nat := 0
  hitCount : Nat := 0
  missCount : Nat := 0

namespace ContentAddressableCache

def cacheKey (env : Env α δ) (content validatorName : String) : String :=
  validatorName ++ ":" ++ env.sha256 content

theorem cacheKey_inj {content name name' : String} :
    cacheKey env content name = cacheKey env content name' ↔ name = name' := by
  rw [cacheKey, cacheKey, String.append_assoc, String.append_assoc]
  exact String.append_left_inj _

def isValid (now : Nat) (entry : CacheEntry δ) (tier : ValidatorTier) (policy : CachePolicy) :
    Bool :=
  if now > entry.expiresAt then false
  else if policy = .degraded ∧ tier.value ∈ [2, 3] then false
  else true

def fromMemory (c : ContentAddressableCache δ) (key : String) (tier : ValidatorTier)
    (policy : CachePolicy) : Option (ValidationResult δ) × ContentAddressableCache δ :=
  match c.memory.get key with
  | none => (none, c)
  | some entry =>
      (if isValid (env.clock c.ticks) entry tier policy then some entry.result else none,
        { c with ticks := c.ticks + 1 })

/-- The entry from the file is in memory from now on, valid or not. -/
def fromDisk (c : ContentAddressableCache δ) (key : String) (tier : ValidatorTier)
    (policy : CachePolicy) : Option (ValidationResult δ) × ContentAddressableCache δ :=
  match c.disk.get key with
  | none => (none, c)
  | some file =>
      (if isValid (env.clock c.ticks) (file.entry tier) tier policy then
          some (file.entry tier).result
        else none,
        { c with memory := c.memory.put (file.entry tier), ticks := c.ticks + 1 })

def counted : Option (ValidationResult δ) × ContentAddressableCache δ →
    Option (ValidationResult δ) × ContentAddressableCache δ
  | (some result, c) => (some result, { c with hitCount := c.hitCount + 1 })
  | (none, c) => (none, { c with missCount := c.missCount + 1 })

def get (c : ContentAddressableCache δ) (content validatorName : String) (tier : ValidatorTier)
    (policy : CachePolicy) : Option (ValidationResult δ) × ContentAddressableCache δ :=
  if policy = .survival then counted (none, c)
  else
    match c.fromMemory env (cacheKey env content validatorName) tier policy with
    | (some result, c) => counted (some result, c)
    | (none, c) => counted (c.fromDisk env (cacheKey env content validatorName) tier policy)

def ttl : Nat := 3600 * 1000000

/-- The entry is in memory before its file is written; false where that raises. -/
def set (c : ContentAddressableCache δ) (content validatorName : String)
    (result : ValidationResult δ) (tier : Nat) (ttl : Nat := ttl) :
    Bool × ContentAddressableCache δ :=
  let key := cacheKey env content validatorName
  let expiresAt := env.clock c.ticks + ttl
  let memory := c.memory.put ⟨key, tier, result, expiresAt⟩
  match env.written key result.details with
  | none => (false, { c with memory := memory, ticks := c.ticks + 1 })
  | some details =>
      (true, { c with
        memory := memory
        disk := c.disk.put ⟨key, result.passed, result.message, details, expiresAt⟩
        ticks := c.ticks + 1 })

/-- Whether the policy lets the entries of a tier count. -/
def reused (policy : CachePolicy) (tier : ValidatorTier) : Bool :=
  match policy with
  | .full => true
  | .degraded => tier = .t1
  | .survival => false

theorem isValid_iff {policy : CachePolicy} (hpolicy : policy ≠ .survival) {now : Nat}
    {entry : CacheEntry δ} {tier : ValidatorTier} :
    isValid now entry tier policy = true ↔
      now ≤ entry.expiresAt ∧ reused policy tier = true := by
  rw [isValid]
  by_cases h : now > entry.expiresAt
  · rw [if_pos h]
    exact iff_of_false Bool.false_ne_true fun hnow => absurd hnow.1 (Nat.not_le.mpr h)
  · rw [if_neg h, and_iff_right (Nat.not_lt.mp h)]
    cases policy with
    | full => exact iff_of_true rfl rfl
    | degraded => cases tier <;> decide
    | survival => exact absurd rfl hpolicy

/-- What get can come to: nothing in memory that counts and no file read, an entry in memory,
or the entry of the file in memory from now on. -/
inductive Looked (key : String) (tier : ValidatorTier) (policy : CachePolicy)
    (c : ContentAddressableCache δ) :
    Option (ValidationResult δ) × ContentAddressableCache δ → Prop
  | unread {c' : ContentAddressableCache δ}
      (entry : ∀ e, c.memory.get key = some e →
        e.expiresAt < env.clock c.ticks ∨ reused policy tier = false)
      (memory : c'.memory = c.memory) (disk : c'.disk = c.disk) (ticks : c.ticks ≤ c'.ticks) :
      Looked key tier policy c (none, c')
  | memory {c' : ContentAddressableCache δ} {e : CacheEntry δ} (entry : c.memory.get key = some e)
      (now : env.clock c.ticks ≤ e.expiresAt) (counts : reused policy tier = true)
      (memory : c'.memory = c.memory) (disk : c'.disk = c.disk) (ticks : c.ticks ≤ c'.ticks) :
      Looked key tier policy c (some e.result, c')
  | file {c' : ContentAddressableCache δ} {f : CacheFile δ} {now : Nat}
      {result : Option (ValidationResult δ)} (file : c.disk.get key = some f)
      (entry : ∀ e, c.memory.get key = some e →
        e.expiresAt < env.clock c.ticks ∨ reused policy tier = false)
      (later : env.clock c.ticks ≤ now) (fresh : now ≤ env.clock c'.ticks)
      (valid : result.isSome = true → now ≤ f.expiresAt ∧ reused policy tier = true)
      (memory : c'.memory = c.memory.put (f.entry tier)) (disk : c'.disk = c.disk)
      (ticks : c.ticks ≤ c'.ticks) : Looked key tier policy c (result, c')

theorem not_isValid {policy : CachePolicy} (hpolicy : policy ≠ .survival) {now : Nat}
    {entry : CacheEntry δ} {tier : ValidatorTier} (h : ¬isValid now entry tier policy = true) :
    entry.expiresAt < now ∨ reused policy tier = false := by
  rw [isValid_iff hpolicy, not_and_or, Nat.not_le, Bool.not_eq_true] at h
  exact h

theorem looked_fromDisk {policy : CachePolicy} (hpolicy : policy ≠ .survival) {key : String}
    {tier : ValidatorTier} {c d : ContentAddressableCache δ} (hmemory : d.memory = c.memory)
    (hdisk : d.disk = c.disk) (hticks : c.ticks ≤ d.ticks)
    (hentry : ∀ e, c.memory.get key = some e →
      e.expiresAt < env.clock c.ticks ∨ reused policy tier = false) :
    Looked env key tier policy c (counted (d.fromDisk env key tier policy)) := by
  rw [fromDisk]
  cases hf : d.disk.get key with
  | none => exact .unread hentry hmemory hdisk hticks
  | some f =>
      rw [hdisk] at hf
      dsimp only
      by_cases h : isValid (env.clock d.ticks) (f.entry tier) tier policy = true
      · rw [if_pos h]
        exact .file hf hentry (env.clock_mono hticks) (env.clock_mono (Nat.le_succ _))
          (fun _ => (isValid_iff hpolicy).mp h) (by rw [← hmemory]) hdisk (Nat.le_succ_of_le hticks)
      · rw [if_neg h]
        exact .file hf hentry (env.clock_mono hticks) (env.clock_mono (Nat.le_succ _))
          (fun hsome => absurd hsome Bool.false_ne_true) (by rw [← hmemory]) hdisk
          (Nat.le_succ_of_le hticks)

theorem looked_get (c : ContentAddressableCache δ) (content name : String) (tier : ValidatorTier)
    (policy : CachePolicy) :
    Looked env (cacheKey env content name) tier policy c (c.get env content name tier policy) := by
  rw [get]
  by_cases hpolicy : policy = .survival
  · rw [if_pos hpolicy]
    exact .unread (fun e _ => .inr (by rw [hpolicy]; rfl)) rfl rfl le_rfl
  · rw [if_neg hpolicy, fromMemory]
    cases he : c.memory.get (cacheKey env content name) with
    | none =>
        refine looked_fromDisk env hpolicy rfl rfl le_rfl fun e h => ?_
        rw [he] at h
        cases h
    | some e =>
        dsimp only
        by_cases h : isValid (env.clock c.ticks) e tier policy = true
        · rw [if_pos h]
          obtain ⟨hnow, hcounts⟩ := (isValid_iff hpolicy).mp h
          exact .memory he hnow hcounts rfl rfl (Nat.le_succ _)
        · rw [if_neg h]
          refine looked_fromDisk env hpolicy rfl rfl (Nat.le_succ _) fun e' he' => ?_
          rw [he] at he'
          cases he'
          exact not_isValid hpolicy h

section Get

variable {env} {c : ContentAddressableCache δ} {content name : String} {tier : ValidatorTier}
  {policy : CachePolicy} {f : CacheFile δ}

theorem not_reused (hpolicy : policy ≠ .survival) :
    reused policy tier = false ↔ policy = .degraded ∧ tier ≠ .t1 := by
  cases policy with
  | full => exact iff_of_false Bool.true_eq_false.mp fun h => CachePolicy.noConfusion h.1
  | degraded => simp [reused]
  | survival => exact absurd rfl hpolicy

/-- Where no entry in memory counts, get goes by the file, at the same reading of the clock or
the next. -/
theorem get_read (hpolicy : policy ≠ .survival)
    (hfile : c.disk.get (cacheKey env content name) = some f)
    (hentry : ∀ e, c.memory.get (cacheKey env content name) = some e →
      ¬isValid (env.clock c.ticks) e tier policy = true) :
    ∃ now, env.clock c.ticks ≤ now ∧
      (c.memory.get (cacheKey env content name) = none → now = env.clock c.ticks) ∧
      (c.get env content name tier policy).1 =
        (if isValid now (f.entry tier) tier policy = true then some (f.entry tier).result
          else none) ∧
      (c.get env content name tier policy).2.memory = c.memory.put (f.entry tier) := by
  rw [get, if_neg hpolicy, fromMemory]
  cases hmemory : c.memory.get (cacheKey env content name) with
  | none =>
      refine ⟨env.clock c.ticks, le_rfl, fun _ => rfl, ?_⟩
      dsimp only
      rw [fromDisk, hfile]
      dsimp only
      split <;> exact ⟨rfl, rfl⟩
  | some e =>
      refine ⟨env.clock (c.ticks + 1), env.clock_mono (Nat.le_succ _), fun h => absurd h (Option.some_ne_none e), ?_⟩
      dsimp only
      rw [if_neg (hentry e hmemory)]
      dsimp only
      rw [fromDisk, hfile]
      dsimp only
      split <;> exact ⟨rfl, rfl⟩

theorem get_found {e : CacheEntry δ} (hpolicy : policy ≠ .survival)
    (hentry : c.memory.get (cacheKey env content name) = some e)
    (hvalid : isValid (env.clock c.ticks) e tier policy = true) :
    (c.get env content name tier policy).1 = some e.result := by
  rw [get, if_neg hpolicy, fromMemory, hentry]
  dsimp only
  rw [if_pos hvalid]
  rfl

theorem get_kept (hpolicy : policy ≠ .survival)
    (h : c.disk.get (cacheKey env content name) = none ∨
      ∃ e, c.memory.get (cacheKey env content name) = some e ∧
        isValid (env.clock c.ticks) e tier policy = true) :
    (c.get env content name tier policy).2.memory = c.memory := by
  have hlook := looked_get env c content name tier policy
  generalize c.get env content name tier policy = x at hlook ⊢
  obtain ⟨o, c'⟩ := x
  cases hlook with
  | unread entry memory => exact memory
  | memory entry now counts memory => exact memory
  | file file entry =>
      rcases h with hfile | ⟨e, he, hvalid⟩
      · rw [hfile] at file
        cases file
      · obtain ⟨hnow, hreused⟩ := (isValid_iff hpolicy).mp hvalid
        rcases entry e he with hlt | hfalse
        · exact absurd hnow (Nat.not_le.mpr hlt)
        · rw [hreused] at hfalse
          cases hfalse

/-- What is served of an entry that has a file and is over when the file is. -/
theorem get_stored (hfile : c.disk.get (cacheKey env content name) = some f)
    (hentry : ∀ e, c.memory.get (cacheKey env content name) = some e →
      e.expiresAt = f.expiresAt) :
    (c.get env content name tier policy).1 =
      if env.clock c.ticks ≤ f.expiresAt ∧ reused policy tier = true then
        some (((c.memory.get (cacheKey env content name)).map CacheEntry.result).getD
          (f.entry tier).result)
      else none := by
  by_cases hpolicy : policy = .survival
  · subst hpolicy
    rw [if_neg fun h => Bool.false_ne_true h.2]
    rfl
  · cases hmemory : c.memory.get (cacheKey env content name) with
    | none =>
        have hnone : ∀ e, c.memory.get (cacheKey env content name) = some e →
            ¬isValid (env.clock c.ticks) e tier policy = true := fun e he => by
          rw [hmemory] at he
          cases he
        obtain ⟨now, -, hnow, hget, -⟩ := get_read hpolicy hfile hnone
        rw [hget, hnow hmemory]
        exact if_congr (isValid_iff hpolicy) rfl rfl
    | some e =>
        have hexpires := hentry e hmemory
        by_cases hvalid : isValid (env.clock c.ticks) e tier policy = true
        · rw [get_found hpolicy hmemory hvalid]
          rw [isValid_iff hpolicy, hexpires] at hvalid
          rw [if_pos hvalid]
          rfl
        · obtain ⟨now, hle, -, hget, -⟩ := get_read hpolicy hfile fun e' he' => by
            rw [hmemory, Option.some.injEq] at he'
            rwa [← he']
          rw [isValid_iff hpolicy, hexpires] at hvalid
          rw [hget, if_neg hvalid, if_neg]
          rw [isValid_iff hpolicy]
          exact fun h => hvalid ⟨hle.trans h.1, h.2⟩

end Get

section Looked

variable {env} {key : String} {tier : ValidatorTier} {policy : CachePolicy}
  {c : ContentAddressableCache δ} {x : Option (ValidationResult δ) × ContentAddressableCache δ}

theorem Looked.disk_eq (h : Looked env key tier policy c x) : x.2.disk = c.disk := by
  cases h <;> assumption

theorem Looked.ticks_le (h : Looked env key tier policy c x) : c.ticks ≤ x.2.ticks := by
  cases h <;> assumption

theorem Looked.get_memory (h : Looked env key tier policy c x) {k : String} (hk : k ≠ key) :
    x.2.memory.get k = c.memory.get k := by
  cases h with
  | unread entry memory => rw [memory]
  | memory entry now counts memory => rw [memory]
  | file file entry later fresh valid memory =>
      obtain ⟨-, rfl⟩ := Table.get_eq_some.mp file
      rw [memory]
      exact Table.get_put_of_ne hk

end Looked

section Set

variable (c : ContentAddressableCache δ) (content name : String) (result : ValidationResult δ)
  (tier ttl : Nat)

theorem set_written :
    (c.set env content name result tier ttl).1 =
      (env.written (cacheKey env content name) result.details).isSome := by
  rw [set]
  cases env.written (cacheKey env content name) result.details <;> rfl

theorem set_memory :
    (c.set env content name result tier ttl).2.memory =
      c.memory.put ⟨cacheKey env content name, tier, result, env.clock c.ticks + ttl⟩ := by
  rw [set]
  cases env.written (cacheKey env content name) result.details <;> rfl

theorem set_disk :
    (c.set env content name result tier ttl).2.disk =
      match env.written (cacheKey env content name) result.details with
      | none => c.disk
      | some details =>
          c.disk.put ⟨cacheKey env content name, result.passed, result.message, details,
            env.clock c.ticks + ttl⟩ := by
  rw [set]
  cases env.written (cacheKey env content name) result.details <;> rfl

theorem set_ticks : (c.set env content name result tier ttl).2.ticks = c.ticks + 1 := by
  rw [set]
  cases env.written (cacheKey env content name) result.details <;> rfl

end Set

end ContentAddressableCache

end Prodinamik.Validators
