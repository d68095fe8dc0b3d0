import Prodinamik.Validators.Known

namespace Prodinamik.Validators

open Lib ValidatorTimeoutManager ContentAddressableCache

variable {α δ : Type}

/-- The hash assumed injective, its digests without the colon that stands before them in a key. -/
structure Digests (env : Env α δ) : Prop where
  injective : Function.Injective env.sha256
  plain : ∀ content, ':' ∉ (env.sha256 content).toList

theorem Digests.key_inj {env : Env α δ} (h : Digests env) {content content' name name' : String} :
    cacheKey env content name = cacheKey env content' name' ↔ content = content' ∧ name = name' := by
  constructor
  · intro hkey
    have hlast : ∀ content name, (cacheKey env content name).toList.reverse.takeWhile (· ≠ ':') =
        (env.sha256 content).toList.reverse := by
      intro content name
      have hdigest : ∀ c ∈ (env.sha256 content).toList.reverse, decide (c ≠ ':') = true := by
        intro c hc
        rw [decide_eq_true_eq]
        rintro rfl
        exact h.plain content (List.mem_reverse.mp hc)
      rw [cacheKey, String.toList_append, String.toList_append, List.reverse_append,
        List.reverse_append, List.takeWhile_append_of_pos hdigest]
      exact List.append_nil _
    have hhash : env.sha256 content = env.sha256 content' := by
      rw [← String.toList_inj, ← List.reverse_inj, ← hlast content name, ← hlast content' name', hkey]
    obtain rfl := h.injective hhash
    exact ⟨rfl, (cacheKey_inj env).mp hkey⟩
  · rintro ⟨rfl, rfl⟩
    rfl

/-- What a cache goes through: the steps of its pipelines, and a new object on the directory. -/
inductive Use (α δ : Type)
  | lookup (policy : CachePolicy) (artifact : α) (v : Validator α δ)
  | execute (artifact : α) (v : Validator α δ)
  | reopen

def ContentAddressableCache.reopened (c : ContentAddressableCache δ) : ContentAddressableCache δ where
  disk := c.disk
  ticks := c.ticks

variable [EmptyCollection δ] (env : Env α δ)

namespace Use

def on : Use α δ → ContentAddressableCache δ → ContentAddressableCache δ
  | lookup policy artifact v, c =>
      (Progress.lookup env policy artifact v (ValidatorPipeline.start { cache := c })).2.cache
  | execute artifact v, c =>
      (Progress.execute env artifact v (ValidatorPipeline.start { cache := c })).2.cache
  | reopen, c => c.reopened

def replay (us : List (Use α δ)) (c : ContentAddressableCache δ) : ContentAddressableCache δ :=
  us.foldl (fun c u => u.on env c) c

/-- Stores a result of a validator of this name for this content. -/
def Stores (content name : String) : Use α δ → Prop
  | lookup _ _ _ => False
  | execute artifact v =>
      env.str artifact = content ∧ v.name = name ∧ (runWithTimeout v artifact).isSome = true
  | reopen => False

/-- Takes the entry out of memory, or puts the one of the file in its place. -/
def Displaces (content name : String) : Use α δ → Prop
  | lookup policy artifact v =>
      env.str artifact = content ∧ v.name = name ∧ policy = .degraded ∧ v.tier ≠ .t1
  | execute _ _ => False
  | reopen => True

variable {env} {us : List (Use α δ)} {c : ContentAddressableCache δ} {policy : CachePolicy}
  {artifact : α} {v : Validator α δ} {s : Progress α δ}

theorem replay_append (us' : List (Use α δ)) :
    replay env (us ++ us') c = replay env us' (replay env us c) := List.foldl_append

theorem lookup_cache :
    (Progress.lookup env policy artifact v s).2.cache =
      (Use.lookup policy artifact v).on env s.cache := rfl

theorem execute_cache :
    (Progress.execute env artifact v s).2.cache = (Use.execute artifact v).on env s.cache := by
  cases h : runWithTimeout v artifact with
  | none =>
      rw [on, execute_cache_none h, execute_cache_none h]
      rfl
  | some result =>
      rw [on, execute_cache_some h, execute_cache_some h]
      rfl

/-- The use is a step of a run on this artifact, of one of these validators. -/
def Of (policy : CachePolicy) (artifact : α) (vs : List (Validator α δ)) (u : Use α δ) : Prop :=
  ∃ v ∈ vs, u = lookup policy artifact v ∨ u = execute artifact v

/-- A run takes its cache through steps of its own validators. -/
theorem run_uses (p : ValidatorPipeline δ) (schedule : List Nat)
    (tier1 tier2 tier3 : List (Validator α δ)) :
    ∃ us, (p.run env artifact schedule tier1 tier2 tier3).2.cache = replay env us p.cache ∧
      ∀ u ∈ us, Of p.cachePolicy artifact (tier1 ++ tier2 ++ tier3) u := by
  refine Preserved.run (p := p) (I := fun s => ∃ us, s.cache = replay env us p.cache ∧
    ∀ u ∈ us, Of p.cachePolicy artifact (tier1 ++ tier2 ++ tier3) u)
    ⟨fun v hv s hs => ?_, fun v hv s hs => ?_, fun v _ r s hs => ?_, fun v _ r s hs => hs⟩
    ⟨[], rfl, List.forall_mem_nil _⟩ schedule
  · obtain ⟨us, hus, hof⟩ := hs
    refine ⟨us ++ [lookup p.cachePolicy artifact v], ?_, fun u hu => ?_⟩
    · rw [lookup_cache, hus, replay_append]
      rfl
    · rcases List.mem_append.mp hu with hu | hu
      · exact hof u hu
      · exact ⟨v, hv, .inl (List.mem_singleton.mp hu)⟩
  · obtain ⟨us, hus, hof⟩ := hs
    refine ⟨us ++ [execute artifact v], ?_, fun u hu => ?_⟩
    · rw [execute_cache, hus, replay_append]
      rfl
    · rcases List.mem_append.mp hu with hu | hu
      · exact hof u hu
      · exact ⟨v, hv, .inr (List.mem_singleton.mp hu)⟩
  · rwa [charge_cache]

/-- What a use that stores nothing under a key does there. -/
inductive Passes (env : Env α δ) (key : String) (displaces : Prop)
    (c c' : ContentAddressableCache δ) : Prop
  | kept (memory : c'.memory.get key = c.memory.get key)
      (stays : ¬displaces ∨ c.disk.get key = none)
  | read (f : CacheFile δ) (tier : ValidatorTier) (file : c.disk.get key = some f)
      (memory : c'.memory.get key = some (f.entry tier))
      (past : displaces ∨ ∀ e, c.memory.get key = some e → e.expiresAt < env.clock c.ticks)
  | dropped (memory : c'.memory.get key = none) (displaced : displaces)

section Step

variable {content name : String} {u : Use α δ}

theorem execute_keeps (hdigests : Digests env)
    (hu : ¬(execute artifact v).Stores env content name) :
    ((execute artifact v).on env c).memory.get (cacheKey env content name) =
        c.memory.get (cacheKey env content name) ∧
      ((execute artifact v).on env c).disk.get (cacheKey env content name) =
        c.disk.get (cacheKey env content name) := by
  by_cases hkey : cacheKey env content name = entryKey env artifact v
  · obtain ⟨rfl, rfl⟩ := hdigests.key_inj.mp hkey
    cases hrun : runWithTimeout v artifact with
    | none =>
        rw [on, execute_cache_none hrun]
        exact ⟨rfl, rfl⟩
    | some result => exact absurd ⟨rfl, rfl, by rw [hrun]; rfl⟩ hu
  · exact execute_get_of_ne hkey

theorem passes_lookup :
    Passes env (cacheKey env (env.str artifact) v.name)
      ((lookup policy artifact v).Displaces env (env.str artifact) v.name) c
      ((lookup policy artifact v).on env c) := by
  change Passes env _ _ c (c.get env (env.str artifact) v.name v.tier policy).2
  by_cases hpolicy : policy = .survival
  · refine .kept ?_ (.inl fun h => ?_)
    · rw [hpolicy]
      rfl
    · rw [hpolicy] at h
      cases h.2.2.1
  · cases hfile : c.disk.get (cacheKey env (env.str artifact) v.name) with
    | none => exact .kept (congrArg (Table.get · _) (get_kept hpolicy (.inl hfile))) (.inr hfile)
    | some f =>
        by_cases hvalid : ∃ e, c.memory.get (cacheKey env (env.str artifact) v.name) = some e ∧
            isValid (env.clock c.ticks) e v.tier policy = true
        · refine .kept (congrArg (Table.get · _) (get_kept hpolicy (.inr hvalid)))
            (.inl fun h => ?_)
          obtain ⟨e, he, hvalid⟩ := hvalid
          have hreused := ((isValid_iff hpolicy).mp hvalid).2
          rw [(not_reused hpolicy).mpr h.2.2] at hreused
          cases hreused
        · have hentry : ∀ e, c.memory.get (cacheKey env (env.str artifact) v.name) = some e →
              ¬isValid (env.clock c.ticks) e v.tier policy = true := fun e he h =>
            hvalid ⟨e, he, h⟩
          obtain ⟨now, -, -, -, hmemory⟩ := get_read hpolicy hfile hentry
          refine .read f v.tier hfile ?_ ?_
          · rw [hmemory, ← Table.key_of_get hfile]
            exact Table.get_put_self _ _
          · cases hreused : reused policy v.tier with
            | false => exact .inl ⟨rfl, rfl, (not_reused hpolicy).mp hreused⟩
            | true =>
                refine .inr fun e he => (not_isValid hpolicy (hentry e he)).resolve_right ?_
                rw [hreused]
                exact Bool.true_eq_false.mp

theorem passes (hdigests : Digests env) (hu : ¬u.Stores env content name) :
    Passes env (cacheKey env content name) (u.Displaces env content name) c (u.on env c) := by
  cases u with
  | lookup policy artifact v =>
      by_cases hkey : env.str artifact = content ∧ v.name = name
      · obtain ⟨rfl, rfl⟩ := hkey
        exact passes_lookup
      · refine .kept ?_ (.inl fun h => hkey ⟨h.1, h.2.1⟩)
        refine (looked_get env c (env.str artifact) v.name v.tier policy).get_memory fun h => ?_
        obtain ⟨rfl, rfl⟩ := hdigests.key_inj.mp h
        exact hkey ⟨rfl, rfl⟩
  | execute artifact v => exact .kept (execute_keeps hdigests hu).1 (.inl id)
  | reopen => exact .dropped rfl trivial

theorem on_disk (hdigests : Digests env) (hu : ¬u.Stores env content name) :
    (u.on env c).disk.get (cacheKey env content name) =
      c.disk.get (cacheKey env content name) := by
  cases u with
  | lookup policy artifact v =>
      exact congrArg (Table.get · _)
        (looked_get env c (env.str artifact) v.name v.tier policy).disk_eq
  | execute artifact v => exact (execute_keeps hdigests hu).2
  | reopen => rfl

theorem ticks_on : c.ticks ≤ (u.on env c).ticks := by
  cases u with
  | lookup policy artifact v =>
      exact (looked_get env c (env.str artifact) v.name v.tier policy).ticks_le
  | execute artifact v => exact execute_ticks (s := ValidatorPipeline.start { cache := c })
  | reopen => exact le_rfl

/-- The file of an entry is there, and what is in memory under its key is over when it is. -/
structure Stored (key : String) (f : CacheFile δ) (c : ContentAddressableCache δ) : Prop where
  file : c.disk.get key = some f
  entry : ∀ e, c.memory.get key = some e → e.expiresAt = f.expiresAt

/-- The entry is in memory as it was put there, or its time is over. -/
def Original (env : Env α δ) (e : CacheEntry δ) (c : ContentAddressableCache δ) : Prop :=
  c.memory.get e.key = some e ∨ e.expiresAt < env.clock c.ticks

/-- What is in memory says no more than the file does. -/
def Copied (key : String) (f : CacheFile δ) (c : ContentAddressableCache δ) : Prop :=
  ∀ e, c.memory.get key = some e → e.result = (f.entry .t1).result

variable {f : CacheFile δ} {e : CacheEntry δ}

theorem Stored.on (hdigests : Digests env) (hu : ¬u.Stores env content name)
    (h : Stored (cacheKey env content name) f c) :
    Stored (cacheKey env content name) f (u.on env c) := by
  refine ⟨(on_disk hdigests hu).trans h.file, fun e he => ?_⟩
  cases passes (c := c) hdigests hu with
  | kept memory =>
      rw [memory] at he
      exact h.entry e he
  | read f' tier file memory =>
      rw [h.file, Option.some.injEq] at file
      rw [memory, Option.some.injEq] at he
      rw [← he, file]
      rfl
  | dropped memory =>
      rw [memory] at he
      cases he

theorem Original.on (hdigests : Digests env) (hu : ¬u.Stores env content name)
    (hstays : ¬u.Displaces env content name) (hkey : e.key = cacheKey env content name)
    (h : Original env e c) : Original env e (u.on env c) := by
  have hlate : e.expiresAt < env.clock c.ticks → Original env e (u.on env c) := fun hlt =>
    .inr (hlt.trans_le (env.clock_mono ticks_on))
  rw [Original, hkey] at h
  cases passes (c := c) hdigests hu with
  | kept memory =>
      rcases h with hentry | hlt
      · exact .inl (by rw [hkey, memory, hentry])
      · exact hlate hlt
  | read f' tier file memory past =>
      refine hlate (h.elim (fun hentry => ?_) id)
      exact past.resolve_left hstays e hentry
  | dropped memory displaced => exact absurd displaced hstays

theorem Copied.on (hdigests : Digests env) (hu : ¬u.Stores env content name)
    (hstored : Stored (cacheKey env content name) f c)
    (h : u.Displaces env content name ∨ Copied (cacheKey env content name) f c) :
    Copied (cacheKey env content name) f (u.on env c) := by
  intro e he
  cases passes (c := c) hdigests hu with
  | kept memory stays =>
      rw [memory] at he
      refine h.elim (fun hdisplaces => ?_) fun h => h e he
      rcases stays with hstays | hnone
      · exact absurd hdisplaces hstays
      · rw [hstored.file] at hnone
        cases hnone
  | read f' tier file memory =>
      rw [hstored.file, Option.some.injEq] at file
      rw [memory, Option.some.injEq] at he
      rw [← he, file]
      rfl
  | dropped memory =>
      rw [memory] at he
      cases he

theorem unseen_on {w : Validator α δ} (hdigests : Digests env)
    (hu : ¬u.Stores env (env.str artifact) w.name) (h : Unseen env artifact w c) :
    Unseen env artifact w (u.on env c) := by
  refine ⟨?_, (on_disk hdigests hu).trans h.2⟩
  cases passes (c := c) hdigests hu with
  | kept memory => exact memory.trans h.1
  | read f tier file => exact absurd (h.2.symm.trans file) (Option.some_ne_none f).symm
  | dropped memory => exact memory

end Step

section Replay

variable {content name : String} {f : CacheFile δ} {e : CacheEntry δ}

theorem Stored.replay (hdigests : Digests env) (hus : ∀ u ∈ us, ¬u.Stores env content name)
    (h : Stored (cacheKey env content name) f c) :
    Stored (cacheKey env content name) f (replay env us c) := by
  induction us generalizing c with
  | nil => exact h
  | cons u us ih =>
      rw [List.forall_mem_cons] at hus
      exact ih hus.2 (h.on hdigests hus.1)

theorem Original.replay (hdigests : Digests env) (hus : ∀ u ∈ us, ¬u.Stores env content name)
    (hstay : ∀ u ∈ us, ¬u.Displaces env content name) (hkey : e.key = cacheKey env content name)
    (h : Original env e c) : Original env e (replay env us c) := by
  induction us generalizing c with
  | nil => exact h
  | cons u us ih =>
      rw [List.forall_mem_cons] at hus hstay
      exact ih hus.2 hstay.2 (h.on hdigests hus.1 hstay.1 hkey)

/-- Once an entry is displaced, what is in memory is what the file says. -/
theorem Copied.replay (hdigests : Digests env) (hus : ∀ u ∈ us, ¬u.Stores env content name)
    (hstored : Stored (cacheKey env content name) f c)
    (h : (∃ u ∈ us, u.Displaces env content name) ∨ Copied (cacheKey env content name) f c) :
    Copied (cacheKey env content name) f (replay env us c) := by
  induction us generalizing c with
  | nil => exact h.resolve_left fun ⟨u, hu, _⟩ => List.not_mem_nil hu
  | cons u us ih =>
      rw [List.forall_mem_cons] at hus
      refine ih hus.2 (hstored.on hdigests hus.1) ?_
      rcases h with ⟨u', hu', hdisplaces⟩ | hcopied
      · rcases List.mem_cons.mp hu' with rfl | hu'
        · exact .inr (Copied.on hdigests hus.1 hstored (.inl hdisplaces))
        · exact .inl ⟨u', hu', hdisplaces⟩
      · exact .inr (Copied.on hdigests hus.1 hstored (.inr hcopied))

theorem unseen_replay {w : Validator α δ} (hdigests : Digests env)
    (hus : ∀ u ∈ us, ¬u.Stores env (env.str artifact) w.name) (h : Unseen env artifact w c) :
    Unseen env artifact w (replay env us c) := by
  induction us generalizing c with
  | nil => exact h
  | cons u us ih =>
      rw [List.forall_mem_cons] at hus
      exact ih hus.2 (unseen_on hdigests hus.1 h)

end Replay

end Use

open Use

section Respects

variable {env} {policy : CachePolicy} {artifact artifact' : α} {v : Validator α δ}
  {s s₁ s₂ : Progress α δ} {result : ValidationResult δ} {us : List (Use α δ)}

/-- The lifetime of the validator's entries is not over. -/
def Due (env : Env α δ) (v : Validator α δ) (s s₂ : Progress α δ) : Prop :=
  env.clock s₂.cache.ticks ≤ env.clock s.cache.ticks + v.cacheTtl * 1000000

/-- The hour of the entry is not over, and the policy counts the tier. -/
def Live (env : Env α δ) (policy : CachePolicy) (v : Validator α δ) (s s₂ : Progress α δ) : Prop :=
  env.clock s₂.cache.ticks ≤ env.clock s.cache.ticks + ttl ∧ reused policy v.tier = true

structure Respects (env : Env α δ) (policy : CachePolicy) (artifact : α) (v : Validator α δ)
    (result : ValidationResult δ) (s s₂ : Progress α δ) : Prop where
  exact : (Progress.lookup env policy artifact v s₂).1.isSome = true ↔ Due env v s s₂
  same : ∀ r, (Progress.lookup env policy artifact v s₂).1 = some r → r = result

/-- The file has all that the result says. -/
def InFile (env : Env α δ) (artifact : α) (v : Validator α δ) (result : ValidationResult δ) : Prop :=
  result.skipped = false ∧ result.costUsd = 0 ∧
    env.written (entryKey env artifact v) result.details = some result.details

/-- Every entry lives an hour, and only its copy in memory has all of the result. -/
structure Lasts (env : Env α δ) (policy : CachePolicy) (artifact : α) (v : Validator α δ)
    (result : ValidationResult δ) (us : List (Use α δ)) (s s₂ : Progress α δ) : Prop where
  time : Due env v s s₂ ↔ Live env policy v s s₂
  fields : Due env v s s₂ →
    (∀ u ∈ us, ¬u.Displaces env (env.str artifact) v.name) ∨ InFile env artifact v result

theorem execute_stored (h : Progress.execute env artifact v s = (some result, s₁)) :
    ∃ details, env.written (entryKey env artifact v) result.details = some details ∧
      Stored (entryKey env artifact v) ⟨entryKey env artifact v, result.passed, result.message,
        details, env.clock s.cache.ticks + ttl⟩ s₁.cache ∧
      s₁.cache.memory.get (entryKey env artifact v) =
        some ⟨entryKey env artifact v, v.cacheTtl, result, env.clock s.cache.ticks + ttl⟩ := by
  have hfst := answer_of_execute h
  obtain ⟨hrun, hwritten⟩ := answer_eq_some.mp hfst.symm
  obtain ⟨details, hdetails⟩ := Option.isSome_iff_exists.mp hwritten
  have hmemory : (Progress.execute env artifact v s).2.cache.memory.get _ = some _ :=
    execute_memory hrun
  have hcache : (Progress.execute env artifact v s).2.cache = _ := execute_cache_some hrun
  rw [h] at hmemory hcache
  refine ⟨details, hdetails, ⟨?_, fun e he => ?_⟩, hmemory⟩
  · rw [hcache, set_disk]
    rw [entryKey] at hdetails
    rw [hdetails]
    exact Table.get_put_self _ _
  · rw [hmemory, Option.some.injEq] at he
    rw [← he]

omit [EmptyCollection δ] in
theorem lookup_stored {f : CacheFile δ} (hstored : Stored (entryKey env artifact v) f s₂.cache)
    (hexpires : f.expiresAt = env.clock s.cache.ticks + ttl)
    (hcontent : env.str artifact' = env.str artifact) :
    (¬Live env policy v s s₂ → (Progress.lookup env policy artifact' v s₂).1 = none) ∧
    (Live env policy v s s₂ → (Progress.lookup env policy artifact' v s₂).1 =
      some (((s₂.cache.memory.get (entryKey env artifact v)).map CacheEntry.result).getD
        (f.entry .t1).result)) := by
  have hget : (s₂.cache.get env (env.str artifact) v.name v.tier policy).1 = _ :=
    get_stored hstored.file hstored.entry
  rw [hexpires, ← hcontent] at hget
  constructor
  · intro hlive
    exact hget.trans (if_neg hlive)
  · intro hlive
    rw [entryKey, ← hcontent]
    exact hget.trans (if_pos hlive)

section Lookup

variable (hdigests : Digests env)
  (hexec : Progress.execute env artifact v s = (some result, s₁))
  (hus : ∀ u ∈ us, ¬u.Stores env (env.str artifact) v.name)
  (hcache : s₂.cache = replay env us s₁.cache) (hcontent : env.str artifact' = env.str artifact)
include hdigests hexec hus hcache hcontent

theorem lookup_original (hlive : Live env policy v s s₂)
    (hstay : ∀ u ∈ us, ¬u.Displaces env (env.str artifact) v.name) :
    (Progress.lookup env policy artifact' v s₂).1 = some result := by
  obtain ⟨details, -, hstored, hmemory⟩ := execute_stored hexec
  have hafter := hstored.replay hdigests hus
  have horiginal : Original env ⟨entryKey env artifact v, v.cacheTtl, result,
      env.clock s.cache.ticks + ttl⟩ (replay env us s₁.cache) :=
    Original.replay hdigests hus hstay rfl (.inl hmemory)
  rw [← hcache] at hafter horiginal
  have hentry := horiginal.resolve_right (Nat.not_lt.mpr hlive.1)
  rw [(lookup_stored hafter rfl hcontent).2 hlive, hentry]
  rfl

theorem lookup_copied (hlive : Live env policy v s s₂)
    (hdisplaced : ∃ u ∈ us, u.Displaces env (env.str artifact) v.name) :
    ∃ details, env.written (entryKey env artifact v) result.details = some details ∧
      (Progress.lookup env policy artifact' v s₂).1 =
        some ⟨result.passed, result.message, details, false, 0⟩ := by
  obtain ⟨details, hdetails, hstored, -⟩ := execute_stored hexec
  have hafter := hstored.replay hdigests hus
  have hcopied := Copied.replay hdigests hus hstored (.inl hdisplaced)
  rw [← hcache] at hafter hcopied
  refine ⟨details, hdetails, ?_⟩
  rw [(lookup_stored hafter rfl hcontent).2 hlive]
  cases hmemory : s₂.cache.memory.get (entryKey env artifact v) with
  | none => rfl
  | some e => exact congrArg some (hcopied e hmemory)

theorem isSome_lookup :
    (Progress.lookup env policy artifact' v s₂).1.isSome = true ↔ Live env policy v s s₂ := by
  obtain ⟨details, -, hstored, -⟩ := execute_stored hexec
  have hafter := hstored.replay hdigests hus
  rw [← hcache] at hafter
  have hlookup : (¬Live env policy v s s₂ → _) ∧ _ := lookup_stored hafter rfl hcontent
  obtain ⟨hover, hserved⟩ := hlookup
  by_cases hlive : Live env policy v s s₂
  · exact iff_of_true (by rw [hserved hlive]; rfl) hlive
  · exact iff_of_false (by rw [hover hlive]; exact Bool.false_ne_true) hlive

/-- Other content is never served what was stored for this, and this is served as it was stored,
for as long as the validator says, exactly where an hour comes to that and the copy has it all. -/
theorem respects_iff :
    (∀ other w, env.str other ≠ env.str artifact → Unseen env other w s.cache →
      (∀ u ∈ us, ¬u.Stores env (env.str other) w.name) →
      (Progress.lookup env policy other w s₂).1 = none) ∧
    (Respects env policy artifact' v result s s₂ ↔
      Lasts env policy artifact v result us s s₂) := by
  constructor
  · intro other w hother hunseen hstores
    have hkey : entryKey env other w ≠ entryKey env artifact v := fun h =>
      hother (hdigests.key_inj.mp h).1
    obtain ⟨hmemory, hdisk⟩ := execute_get_of_ne (s := s) hkey
    rw [hexec] at hmemory hdisk
    have hafter := unseen_replay hdigests hstores
      (⟨hmemory.trans hunseen.1, hdisk.trans hunseen.2⟩ : Unseen env other w s₁.cache)
    rw [← hcache] at hafter
    exact (hafter.after rfl).1
  · have hserved : (Progress.lookup env policy artifact' v s₂).1.isSome = true ↔ _ :=
      isSome_lookup hdigests hexec hus hcache hcontent
    constructor
    · intro h
      have htime := h.exact.symm.trans hserved
      refine ⟨htime, fun hdue => ?_⟩
      by_cases hmoved : ∃ u ∈ us, u.Displaces env (env.str artifact) v.name
      · obtain ⟨details, hdetails, hlookup⟩ :=
          lookup_copied hdigests hexec hus hcache hcontent (htime.mp hdue) hmoved
        have hsame := h.same _ hlookup
        refine .inr ?_
        rw [InFile, hdetails, ← hsame]
        exact ⟨rfl, rfl, rfl⟩
      · exact .inl fun u hu hdisplaces => hmoved ⟨u, hu, hdisplaces⟩
    · intro h
      refine ⟨hserved.trans h.time.symm, fun r hr => ?_⟩
      have hlive : Live env policy v s s₂ := hserved.mp (by rw [hr]; rfl)
      by_cases hmoved : ∃ u ∈ us, u.Displaces env (env.str artifact) v.name
      · obtain ⟨hskipped, hcost, hwritten⟩ := (h.fields (h.time.mpr hlive)).resolve_left
          fun hstay => hmoved.elim fun u hu => hstay u hu.1 hu.2
        obtain ⟨details, hdetails, hlookup⟩ :=
          lookup_copied hdigests hexec hus hcache hcontent hlive hmoved
        rw [hdetails, Option.some.injEq] at hwritten
        rw [hlookup, Option.some.injEq] at hr
        rw [← hr, hwritten, ← hskipped, ← hcost]
      · rw [lookup_original hdigests hexec hus hcache hcontent hlive
          fun u hu hdisplaces => hmoved ⟨u, hu, hdisplaces⟩] at hr
        exact (Option.some.inj hr).symm

end Lookup

end Respects

/-! A format check of a draft, and a clock that is a minute and a second on at every reading. -/

def spell (c : Char) : List Char := if c = ':' then ['y', 'y'] else ['x', c]

def draftEnv : Env String (List String) where
  str := id
  sha256 := fun content => String.ofList (content.toList.flatMap spell)
  written := fun _ details => some details
  clock := fun i => 61 * 1000000 * i
  clock_mono := fun _ _ h => Nat.mul_le_mul_left _ h

theorem spell_inj {c c' : Char} (h : spell c = spell c') : c = c' := by
  rw [spell, spell] at h
  split at h
  case isTrue hc =>
    split at h
    case isTrue hc' => rw [hc, hc']
    case isFalse => simp at h
  case isFalse =>
    split at h
    case isTrue => simp at h
    case isFalse => simpa using h

theorem length_spell (c : Char) : (spell c).length = 2 := by
  rw [spell]
  split <;> rfl

theorem flatMap_spell_inj (l l' : List Char) (h : l.flatMap spell = l'.flatMap spell) : l = l' := by
  induction l generalizing l' with
  | nil =>
      cases l' with
      | nil => rfl
      | cons c' l' =>
          have hlength := congrArg List.length h
          rw [List.flatMap_cons, List.length_append, length_spell, List.flatMap_nil,
            List.length_nil] at hlength
          omega
  | cons c l ih =>
      cases l' with
      | nil =>
          have hlength := congrArg List.length h
          rw [List.flatMap_cons, List.length_append, length_spell, List.flatMap_nil,
            List.length_nil] at hlength
          omega
      | cons c' l' =>
          rw [List.flatMap_cons, List.flatMap_cons] at h
          obtain ⟨hc, hl⟩ := List.append_inj h ((length_spell c).trans (length_spell c').symm)
          rw [spell_inj hc, ih l' hl]

theorem digests_draft : Digests draftEnv := by
  constructor
  · intro content content' h
    rw [← String.toList_inj]
    exact flatMap_spell_inj _ _ (String.ofList_injective h)
  · intro content h
    rw [draftEnv, String.toList_ofList, List.mem_flatMap] at h
    obtain ⟨c, -, hc⟩ := h
    rw [spell] at hc
    split at hc
    case isTrue => simp at hc
    case isFalse hne =>
      rcases List.mem_cons.mp hc with hc | hc
      · simp at hc
      · exact hne (List.mem_singleton.mp hc).symm

def formatCheck (cacheTtl : Nat) : Validator String (List String) where
  name := "FormatCheck"
  tier := .t2
  cacheTtl := cacheTtl
  validate := fun _ => .returned ⟨true, "", [], false, 0⟩

/-- What the cache has been through once the check is stored. -/
def checked (cacheTtl : Nat) : Progress String (List String) :=
  (Progress.execute draftEnv "harika" (formatCheck cacheTtl)
    (ValidatorPipeline.start {})).2

def checkedAgain (cacheTtl : Nat) : Progress String (List String) :=
  { checked cacheTtl with cache := replay draftEnv [.reopen] (checked cacheTtl).cache }

theorem respects_iff_reopened :
    Respects draftEnv .full "harika" (formatCheck 3600) ⟨true, "", [], false, 0⟩
      (ValidatorPipeline.start {}) (checkedAgain 3600) := by
  have hus : ∀ u ∈ ([.reopen] : List (Use String (List String))),
      ¬u.Stores draftEnv (draftEnv.str "harika") (formatCheck 3600).name := by
    intro u hu
    rw [List.mem_singleton.mp hu]
    exact id
  have hexec : Progress.execute draftEnv "harika" (formatCheck 3600) (ValidatorPipeline.start {}) =
      (some ⟨true, "", [], false, 0⟩, checked 3600) := rfl
  refine (respects_iff digests_draft hexec hus rfl rfl).2.mpr ⟨?_, fun _ => .inr ?_⟩
  · unfold Due Live
    decide
  · exact ⟨rfl, rfl, rfl⟩

/-- A minute's entry is served after a minute and a second. -/
theorem not_respects :
    ¬ ∀ (env : Env String (List String)) (artifact : String)
      (v : Validator String (List String)) (result : ValidationResult (List String))
      (us : List (Use String (List String))) (s s₁ s₂ : Progress String (List String)),
      Digests env → Progress.execute env artifact v s = (some result, s₁) →
      (∀ u ∈ us, ¬u.Stores env (env.str artifact) v.name) →
      s₂.cache = replay env us s₁.cache → Respects env .full artifact v result s s₂ := by
  intro h
  have hrespects := h draftEnv "harika" (formatCheck 60) ⟨true, "", [], false, 0⟩ []
    (ValidatorPipeline.start {}) (checked 60) (checked 60) digests_draft rfl
    (List.forall_mem_nil _) rfl
  have hserved : (Progress.lookup draftEnv .full "harika" (formatCheck 60)
      (checked 60)).1.isSome = true := rfl
  have hdue := hrespects.exact.mp hserved
  unfold Due at hdue
  revert hdue
  decide

end Prodinamik.Validators
