import Prodinamik.Validators.Pipeline

namespace Prodinamik.Validators

open Lib Progress ValidatorTimeoutManager ContentAddressableCache

section Steps

variable {α δ : Type} (env : Env α δ) (policy : CachePolicy) (artifact : α)

def entryKey (v : Validator α δ) : String := cacheKey env (env.str artifact) v.name

/-- The cache holds nothing about a validator and this artifact. -/
def Unseen (v : Validator α δ) (c : ContentAddressableCache δ) : Prop :=
  c.memory.get (entryKey env artifact v) = none ∧
    c.disk.get (entryKey env artifact v) = none

/-- The entry of a validator is in memory, and nothing about it expires. -/
structure Held (v : Validator α δ) (c : ContentAddressableCache δ) : Prop where
  memory : (c.memory.get (entryKey env artifact v)).isSome = true
  entry : ∀ e, c.memory.get (entryKey env artifact v) = some e →
    ∀ i, env.clock i ≤ e.expiresAt
  file : ∀ f, c.disk.get (entryKey env artifact v) = some f →
    ∀ i, env.clock i ≤ f.expiresAt

variable {env policy artifact} {v u : Validator α δ} {s t : Progress α δ}
  {result : ValidationResult δ}

theorem entryKey_inj : entryKey env artifact u = entryKey env artifact v ↔ u.name = v.name :=
  cacheKey_inj env

variable (env policy artifact) in
theorem looked_lookup (v : Validator α δ) (s : Progress α δ) :
    Looked env (entryKey env artifact v) v.tier policy s.cache
      ((lookup env policy artifact v s).1, (lookup env policy artifact v s).2.cache) :=
  looked_get env s.cache (env.str artifact) v.name v.tier policy

theorem lookup_results : (lookup env policy artifact v s).2.results = s.results := rfl

theorem lookup_calls : (lookup env policy artifact v s).2.calls = s.calls := rfl

theorem result_record (name : String) :
    (record v result s).results.result name =
      if name = v.name then some result else s.results.result name := by
  rw [record, Results.result, Table.get_put]
  split <;> rfl

theorem charge_cache : (charge v result s).cache = s.cache := by
  rw [charge]
  split <;> rfl

theorem charge_results : (charge v result s).results = s.results := by
  rw [charge]
  split <;> rfl

theorem charge_calls : (charge v result s).calls = s.calls := by
  rw [charge]
  split <;> rfl

end Steps

variable {α δ : Type} [EmptyCollection δ] (env : Env α δ) (policy : CachePolicy) (artifact : α)

/-- What a call comes to with the set after it. -/
def answer (v : Validator α δ) : Option (ValidationResult δ) :=
  (runWithTimeout v artifact).filter fun r => (env.written (entryKey env artifact v) r.details).isSome

/-- The cache holds of a validator its own result, or one that no longer
counts; no file outlives its entry in memory. -/
structure Known (v : Validator α δ) (c : ContentAddressableCache δ) : Prop where
  memory : ∀ e, c.memory.get (entryKey env artifact v) = some e →
    ∃ r, runWithTimeout v artifact = some r ∧
      (e.result = r ∨ e.expiresAt < env.clock c.ticks ∨ reused policy v.tier = false)
  disk : ∀ f, c.disk.get (entryKey env artifact v) = some f →
    (answer env artifact v).isSome = true ∧
      ∃ e, c.memory.get (entryKey env artifact v) = some e ∧ e.expiresAt = f.expiresAt

variable {env policy artifact} {v u : Validator α δ} {s t : Progress α δ}
  {result : ValidationResult δ}

theorem answer_eq_some :
    answer env artifact v = some result ↔
      runWithTimeout v artifact = some result ∧
        (env.written (entryKey env artifact v) result.details).isSome = true := by
  rw [answer, Option.filter_eq_some_iff]

theorem execute_fst : (execute env artifact v s).1 = answer env artifact v := by
  rw [execute, answer]
  cases runWithTimeout v artifact with
  | none => rfl
  | some result =>
      dsimp only
      rw [set_written, Option.filter_some]
      rfl

theorem execute_results : (execute env artifact v s).2.results = s.results := by
  rw [execute]
  cases runWithTimeout v artifact <;> rfl

omit [EmptyCollection δ] in
theorem results_of_lookup {o : Option (ValidationResult δ)}
    (h : lookup env policy artifact v s = (o, t)) : t.results = s.results := by
  have hresults : (lookup env policy artifact v s).2.results = s.results := lookup_results
  rwa [h] at hresults

theorem results_of_execute {o : Option (ValidationResult δ)}
    (h : execute env artifact v s = (o, t)) : t.results = s.results := by
  have hresults : (execute env artifact v s).2.results = s.results := execute_results
  rwa [h] at hresults

theorem answer_of_execute {o : Option (ValidationResult δ)}
    (h : execute env artifact v s = (o, t)) : o = answer env artifact v := by
  have hfst : (execute env artifact v s).1 = answer env artifact v := execute_fst
  rwa [h] at hfst

theorem execute_calls : (execute env artifact v s).2.calls = s.calls ++ [v] := by
  rw [execute]
  cases runWithTimeout v artifact <;> rfl

theorem execute_cache_none (h : runWithTimeout v artifact = none) :
    (execute env artifact v s).2.cache = s.cache := by
  rw [execute, h]

theorem execute_cache_some (h : runWithTimeout v artifact = some result) :
    (execute env artifact v s).2.cache =
      (s.cache.set env (env.str artifact) v.name result v.cacheTtl).2 := by
  rw [execute, h]

theorem Unseen.known {c : ContentAddressableCache δ} (h : Unseen env artifact v c) :
    Known env policy artifact v c := by
  constructor
  · intro e he
    rw [h.1] at he
    cases he
  · intro f hf
    rw [h.2] at hf
    cases hf

theorem execute_get_of_ne {key : String} (hkey : key ≠ entryKey env artifact u) :
    (execute env artifact u s).2.cache.memory.get key = s.cache.memory.get key ∧
      (execute env artifact u s).2.cache.disk.get key = s.cache.disk.get key := by
  cases h : runWithTimeout u artifact with
  | none =>
      rw [execute_cache_none h]
      exact ⟨rfl, rfl⟩
  | some result =>
      rw [execute_cache_some h, set_memory, set_disk]
      refine ⟨Table.get_put_of_ne hkey, ?_⟩
      split
      · rfl
      · exact Table.get_put_of_ne hkey

theorem execute_ticks : s.cache.ticks ≤ (execute env artifact u s).2.cache.ticks := by
  cases h : runWithTimeout u artifact with
  | none => rw [execute_cache_none h]
  | some result =>
      rw [execute_cache_some h, set_ticks]
      exact Nat.le_succ _

theorem execute_memory (h : runWithTimeout u artifact = some result) :
    (execute env artifact u s).2.cache.memory.get (entryKey env artifact u) =
      some ⟨entryKey env artifact u, u.cacheTtl, result, env.clock s.cache.ticks + ttl⟩ := by
  rw [execute_cache_some h, set_memory]
  exact Table.get_put_self _ _

theorem execute_disk (h : runWithTimeout u artifact = some result) {f : CacheFile δ}
    (hf : (execute env artifact u s).2.cache.disk.get (entryKey env artifact u) = some f) :
    (answer env artifact u = none ∧ s.cache.disk.get (entryKey env artifact u) = some f) ∨
      (answer env artifact u).isSome = true ∧ f.expiresAt = env.clock s.cache.ticks + ttl := by
  rw [execute_cache_some h, set_disk] at hf
  cases hwritten : env.written (cacheKey env (env.str artifact) u.name) result.details with
  | none =>
      rw [hwritten] at hf
      refine .inl ⟨Option.eq_none_iff_forall_ne_some.mpr fun r hr => ?_, hf⟩
      obtain ⟨hr, hsome⟩ := answer_eq_some.mp hr
      rw [h, Option.some.injEq] at hr
      rw [← hr, entryKey, hwritten] at hsome
      cases hsome
  | some details =>
      rw [hwritten] at hf
      refine .inr ⟨?_, ?_⟩
      · rw [answer_eq_some.mpr ⟨h, by rw [entryKey, hwritten]; rfl⟩]
        rfl
      · exact (congrArg CacheFile.expiresAt (Option.some.inj
          ((Table.get_put_self s.cache.disk _).symm.trans hf))).symm

theorem Known.expired {c c' : ContentAddressableCache δ} (h : Known env policy artifact v c)
    (hmemory : c'.memory.get (entryKey env artifact v) = c.memory.get (entryKey env artifact v))
    (hdisk : c'.disk.get (entryKey env artifact v) = c.disk.get (entryKey env artifact v))
    (hticks : c.ticks ≤ c'.ticks) : Known env policy artifact v c' := by
  constructor
  · rw [hmemory]
    intro e he
    obtain ⟨r, hr, hstale⟩ := h.memory e he
    refine ⟨r, hr, hstale.imp_right (.imp_left fun hlt => ?_)⟩
    exact hlt.trans_le (env.clock_mono hticks)
  · rw [hmemory, hdisk]
    exact h.disk

/-- An entry that comes back from its file has been counting no longer. -/
theorem Known.reloaded {c c' : ContentAddressableCache δ} (h : Known env policy artifact v c)
    {f : CacheFile δ} (hf : c.disk.get (entryKey env artifact v) = some f)
    (hentry : ∀ e, c.memory.get (entryKey env artifact v) = some e →
      e.expiresAt < env.clock c.ticks ∨ reused policy v.tier = false)
    (hmemory : c'.memory = c.memory.put (f.entry v.tier)) (hdisk : c'.disk = c.disk)
    (hticks : c.ticks ≤ c'.ticks) : Known env policy artifact v c' := by
  obtain ⟨hanswer, e, he, hexpires⟩ := h.disk f hf
  obtain ⟨r, hr, -⟩ := h.memory e he
  have hget : c'.memory.get (entryKey env artifact v) = some (f.entry v.tier) := by
    rw [hmemory, ← Table.key_of_get hf]
    exact Table.get_put_self _ _
  constructor
  · intro e' he'
    rw [hget, Option.some.injEq] at he'
    subst he'
    refine ⟨r, hr, .inr ((hentry e he).imp_left fun hlt => ?_)⟩
    exact (hexpires ▸ hlt : f.expiresAt < _).trans_le (env.clock_mono hticks)
  · intro f' hf'
    rw [hdisk, hf, Option.some.injEq] at hf'
    subst hf'
    exact ⟨hanswer, _, hget, rfl⟩

theorem known_lookup (hkey : u ≠ v → entryKey env artifact v ≠ entryKey env artifact u)
    (h : Known env policy artifact v s.cache) :
    Known env policy artifact v (lookup env policy artifact u s).2.cache := by
  have hlook := looked_lookup env policy artifact u s
  by_cases huv : u = v
  · subst huv
    generalize lookup env policy artifact u s = x at hlook ⊢
    obtain ⟨o, t⟩ := x
    cases hlook with
    | unread entry memory disk ticks => exact h.expired (by rw [memory]) (by rw [disk]) ticks
    | memory entry now counts memory disk ticks =>
        exact h.expired (by rw [memory]) (by rw [disk]) ticks
    | file file entry later fresh valid memory disk ticks =>
        exact h.reloaded file entry memory disk ticks
  · exact h.expired (hlook.get_memory (hkey huv)) (by rw [hlook.disk_eq]) hlook.ticks_le

theorem known_execute (hkey : u ≠ v → entryKey env artifact v ≠ entryKey env artifact u)
    (h : Known env policy artifact v s.cache) :
    Known env policy artifact v (execute env artifact u s).2.cache := by
  by_cases huv : u = v
  · subst huv
    cases hr : runWithTimeout u artifact with
    | none => rwa [execute_cache_none hr]
    | some r =>
        have hget : (execute env artifact u s).2.cache.memory.get (entryKey env artifact u) =
            some _ := execute_memory hr
        constructor
        · intro e he
          rw [hget, Option.some.injEq] at he
          subst he
          exact ⟨r, hr, .inl rfl⟩
        · intro f hf
          rcases execute_disk hr hf with ⟨hnone, hfile⟩ | ⟨hanswer, hexpires⟩
          · obtain ⟨hanswer, -⟩ := h.disk f hfile
            rw [hnone] at hanswer
            cases hanswer
          · exact ⟨hanswer, _, hget, hexpires.symm⟩
  · obtain ⟨hmemory, hdisk⟩ := execute_get_of_ne (s := s) (hkey huv)
    exact h.expired hmemory hdisk execute_ticks

omit [EmptyCollection δ] in
theorem Unseen.after {o : Option (ValidationResult δ)} (h : Unseen env artifact v s.cache)
    (hlookup : lookup env policy artifact v s = (o, t)) :
    o = none ∧ Unseen env artifact v t.cache := by
  have hlook := looked_lookup env policy artifact v s
  rw [hlookup] at hlook
  cases hlook with
  | unread entry memory disk ticks =>
      rw [Unseen, memory, disk]
      exact ⟨rfl, h⟩
  | memory entry now counts memory disk ticks =>
      rw [h.1] at entry
      cases entry
  | file file entry later fresh valid memory disk ticks =>
      rw [h.2] at file
      cases file

theorem Known.after {o : Option (ValidationResult δ)} (h : Known env policy artifact v s.cache)
    (hlookup : lookup env policy artifact v s = (o, t)) : Known env policy artifact v t.cache := by
  have hnext : Known env policy artifact v (lookup env policy artifact v s).2.cache :=
    known_lookup (fun hne => absurd rfl hne) h
  rwa [hlookup] at hnext

/-- A hit gives the validator's own result. -/
theorem Known.hit (h : Known env policy artifact v s.cache)
    (hlookup : Progress.lookup env policy artifact v s = (some result, t)) :
    runWithTimeout v artifact = some result ∧ reused policy v.tier = true := by
  have hlook := looked_lookup env policy artifact v s
  rw [hlookup] at hlook
  cases hlook with
  | memory entry now counts memory disk ticks =>
      obtain ⟨r, hr, rfl | hlt | hfalse⟩ := h.memory _ entry
      · exact ⟨hr, counts⟩
      · exact absurd hlt (Nat.not_lt.mpr now)
      · rw [counts] at hfalse
        cases hfalse
  | file file entry later fresh valid memory disk ticks =>
      obtain ⟨-, e, he, hexpires⟩ := h.disk _ file
      obtain ⟨hnow, hcounts⟩ := valid rfl
      rcases entry e he with hlt | hfalse
      · omega
      · rw [hcounts] at hfalse
        cases hfalse

omit [EmptyCollection δ] in
theorem Held.hit (h : Held env artifact v s.cache)
    (hreused : reused policy v.tier = true) :
    ∃ r t, Progress.lookup env policy artifact v s = (some r, t) := by
  have hlook := looked_lookup env policy artifact v s
  obtain ⟨e, he⟩ := Option.isSome_iff_exists.mp h.memory
  have hcounts : ¬(e.expiresAt < env.clock s.cache.ticks ∨ reused policy v.tier = false) := by
    rw [hreused, not_or]
    exact ⟨Nat.not_lt.mpr (h.entry e he _), Bool.true_eq_false.mp⟩
  generalize Progress.lookup env policy artifact v s = x at hlook ⊢
  obtain ⟨o, t⟩ := x
  cases hlook with
  | unread entry => exact absurd (entry e he) hcounts
  | memory => exact ⟨_, _, rfl⟩
  | file file entry => exact absurd (entry e he) hcounts

/-! What the steps leave alone. -/

section Kept

theorem Preserved.of_cache {vs : List (Validator α δ)} {I : ContentAddressableCache δ → Prop}
    (hlookup : ∀ v ∈ vs, ∀ s : Progress α δ, I s.cache →
      I (Progress.lookup env policy artifact v s).2.cache)
    (hexecute : ∀ v ∈ vs, ∀ s : Progress α δ, I s.cache →
      I (Progress.execute env artifact v s).2.cache) :
    Preserved env policy artifact vs fun s => I s.cache :=
  ⟨hlookup, hexecute, fun v hv r s h => by rwa [charge_cache], fun v hv r s h => h⟩

theorem Preserved.of_results {vs : List (Validator α δ)} {I : Results δ → Prop}
    (hrecord : ∀ v ∈ vs, ∀ r (s : Progress α δ), I s.results → I (Progress.record v r s).results) :
    Preserved env policy artifact vs fun s => I s.results :=
  ⟨fun v hv s h => h, fun v hv s h => by rwa [execute_results],
    fun v hv r s h => by rwa [charge_results], hrecord⟩

/-- Nothing of another name changes. -/
theorem preserved_result {name : String} (hname : name ≠ u.name)
    (P : Option (ValidationResult δ) → Prop) :
    Preserved env policy artifact [u] fun s => P (s.results.result name) := by
  refine .of_results (I := fun results => P (results.result name)) fun v hv r s h => ?_
  rw [List.mem_singleton] at hv
  rwa [hv, result_record, if_neg hname]

theorem preserved_recorded (vs : List (Validator α δ)) (name : String) :
    Preserved env policy artifact vs fun s => (s.results.result name).isSome = true := by
  refine .of_results (I := fun results => (results.result name).isSome = true) fun v hv r s h => ?_
  rw [result_record]
  split
  · rfl
  · exact h

theorem Preserved.and {vs : List (Validator α δ)} {I J : Progress α δ → Prop}
    (hI : Preserved env policy artifact vs I) (hJ : Preserved env policy artifact vs J) :
    Preserved env policy artifact vs fun s => I s ∧ J s :=
  ⟨fun v hv s h => ⟨hI.lookup v hv s h.1, hJ.lookup v hv s h.2⟩,
    fun v hv s h => ⟨hI.execute v hv s h.1, hJ.execute v hv s h.2⟩,
    fun v hv r s h => ⟨hI.charge v hv r s h.1, hJ.charge v hv r s h.2⟩,
    fun v hv r s h => ⟨hI.record v hv r s h.1, hJ.record v hv r s h.2⟩⟩

theorem Preserved.imp {vs : List (Validator α δ)} {p : Prop} {I : Progress α δ → Prop}
    (hI : Preserved env policy artifact vs I) :
    Preserved env policy artifact vs fun s => p → I s :=
  ⟨fun v hv s h hp => hI.lookup v hv s (h hp), fun v hv s h hp => hI.execute v hv s (h hp),
    fun v hv r s h hp => hI.charge v hv r s (h hp), fun v hv r s h hp => hI.record v hv r s (h hp)⟩

theorem Preserved.const (vs : List (Validator α δ)) (p : Prop) :
    Preserved env policy artifact vs fun _ => p :=
  ⟨fun _ _ _ h => h, fun _ _ _ h => h, fun _ _ _ _ h => h, fun _ _ _ _ h => h⟩

/-- What one validator after the other keeps, all of them keep. -/
theorem Preserved.of_forall {vs : List (Validator α δ)} {I : Progress α δ → Prop}
    (h : ∀ v ∈ vs, Preserved env policy artifact [v] I) : Preserved env policy artifact vs I :=
  ⟨fun v hv => (h v hv).lookup v (List.mem_singleton_self v),
    fun v hv => (h v hv).execute v (List.mem_singleton_self v),
    fun v hv => (h v hv).charge v (List.mem_singleton_self v),
    fun v hv => (h v hv).record v (List.mem_singleton_self v)⟩

theorem preserved_unseen (hname : u.name ≠ v.name) :
    Preserved env policy artifact [u] fun s => Unseen env artifact v s.cache := by
  have hkey : entryKey env artifact v ≠ entryKey env artifact u := fun h =>
    hname (entryKey_inj.mp h).symm
  refine .of_cache (fun w hw s h => ?_) fun w hw s h => ?_
  · have hlook := looked_lookup env policy artifact w s
    rw [List.mem_singleton] at hw
    subst hw
    exact ⟨by rw [hlook.get_memory hkey, h.1], by rw [hlook.disk_eq, h.2]⟩
  · rw [List.mem_singleton] at hw
    rw [hw, Unseen, (execute_get_of_ne hkey).1, (execute_get_of_ne hkey).2]
    exact h

/-- What the cache knows of a validator it goes on knowing, whatever is called
under another name. -/
theorem preserved_known (hname : u.name = v.name → u = v) :
    Preserved env policy artifact [u] fun s => Known env policy artifact v s.cache := by
  have hkey : u ≠ v → entryKey env artifact v ≠ entryKey env artifact u := fun hne h =>
    hne (hname (entryKey_inj.mp h).symm)
  refine .of_cache (fun w hw s h => ?_) fun w hw s h => ?_
  · rw [List.mem_singleton] at hw
    subst hw
    exact known_lookup hkey h
  · rw [List.mem_singleton] at hw
    subst hw
    exact known_execute hkey h

/-- No two readings of the clock lie further apart than an entry lives. -/
def NoTtlElapsed (env : Env α δ) : Prop := ∀ i j, env.clock j ≤ env.clock i + ttl

theorem held_execute (hclock : NoTtlElapsed env) (hunseen : Unseen env artifact v s.cache)
    (h : runWithTimeout v artifact = some result) :
    Held env artifact v (execute env artifact v s).2.cache := by
  have hget : (execute env artifact v s).2.cache.memory.get (entryKey env artifact v) =
      some _ := execute_memory h
  refine ⟨by rw [hget]; rfl, fun e he i => ?_, fun f hf i => ?_⟩
  · rw [hget, Option.some.injEq] at he
    subst he
    exact hclock _ i
  · rcases execute_disk h hf with ⟨-, hfile⟩ | ⟨-, hexpires⟩
    · rw [hunseen.2] at hfile
      cases hfile
    · rw [hexpires]
      exact hclock _ i

omit [EmptyCollection δ] in
theorem Held.of_get {c c' : ContentAddressableCache δ} (h : Held env artifact v c)
    (hmemory : c'.memory.get (entryKey env artifact v) = c.memory.get (entryKey env artifact v))
    (hdisk : c'.disk.get (entryKey env artifact v) = c.disk.get (entryKey env artifact v)) :
    Held env artifact v c' :=
  ⟨hmemory ▸ h.memory, hmemory ▸ h.entry, hdisk ▸ h.file⟩

omit [EmptyCollection δ] in
theorem held_lookup (h : Held env artifact v s.cache) :
    Held env artifact v (lookup env policy artifact u s).2.cache := by
  have hlook := looked_lookup env policy artifact u s
  by_cases hkey : entryKey env artifact v = entryKey env artifact u
  · generalize Progress.lookup env policy artifact u s = x at hlook ⊢
    obtain ⟨o, t⟩ := x
    cases hlook with
    | unread entry memory disk ticks => exact h.of_get (by rw [memory]) (by rw [disk])
    | memory entry now counts memory disk ticks => exact h.of_get (by rw [memory]) (by rw [disk])
    | @file _ f _ _ file entry later fresh valid memory disk ticks =>
        have hget : t.cache.memory.get (entryKey env artifact v) = some (f.entry u.tier) := by
          rw [memory, hkey, ← Table.key_of_get file]
          exact Table.get_put_self _ _
        refine ⟨by rw [hget]; rfl, fun e he i => ?_, disk ▸ h.file⟩
        rw [hget, Option.some.injEq] at he
        subst he
        exact h.file f (hkey ▸ file) i
  · exact h.of_get (hlook.get_memory hkey) (by rw [hlook.disk_eq])

theorem held_set (hclock : NoTtlElapsed env) (h : Held env artifact v s.cache) :
    Held env artifact v (execute env artifact u s).2.cache := by
  by_cases hkey : entryKey env artifact v = entryKey env artifact u
  · cases hr : runWithTimeout u artifact with
    | none => rwa [execute_cache_none hr]
    | some r =>
        have hget : (execute env artifact u s).2.cache.memory.get (entryKey env artifact v) =
            some _ := hkey ▸ execute_memory hr
        refine ⟨by rw [hget]; rfl, fun e he i => ?_, fun f hf i => ?_⟩
        · rw [hget, Option.some.injEq] at he
          subst he
          exact hclock _ i
        · rw [hkey] at hf
          rcases execute_disk hr hf with ⟨-, hfile⟩ | ⟨-, hexpires⟩
          · exact h.file f (hkey ▸ hfile) i
          · rw [hexpires]
            exact hclock _ i
  · obtain ⟨hmemory, hdisk⟩ := execute_get_of_ne (s := s) hkey
    exact h.of_get hmemory hdisk

theorem preserved_held (hclock : NoTtlElapsed env) (vs : List (Validator α δ)) :
    Preserved env policy artifact vs fun s => Held env artifact v s.cache :=
  .of_cache (fun _ _ _ h => held_lookup h) fun _ _ _ h => held_set hclock h

theorem tier3_recorded {vs : List (Validator α δ)}
    (hrun : (runTier3 env policy artifact vs s).1 = true) :
    ∀ v ∈ vs, ((runTier3 env policy artifact vs s).2.results.result v.name).isSome = true := by
  induction vs generalizing s with
  | nil => exact fun v hv => absurd hv List.not_mem_nil
  | cons v vs ih =>
      have hnext : ∀ r (t : Progress α δ),
          runTier3 env policy artifact (v :: vs) s = runTier3 env policy artifact vs (record v r t) →
          ∀ u ∈ v :: vs,
            ((runTier3 env policy artifact (v :: vs) s).2.results.result u.name).isSome = true := by
        intro r t hstep u hu
        rw [hstep] at hrun ⊢
        rcases List.mem_cons.mp hu with rfl | hu
        · exact (preserved_recorded vs u.name).tier3 (by rw [result_record, if_pos rfl]; rfl)
        · exact ih hrun u hu
      cases hdeps : depsPassed v s.results with
      | false => exact hnext _ s (runTier3_skip hdeps)
      | true =>
          rcases hl : Progress.lookup env policy artifact v s with ⟨_ | cached, t⟩
          · rcases he : Progress.execute env artifact v t with ⟨_ | r, w⟩
            · rw [runTier3_raise hdeps hl he] at hrun
              cases hrun
            · exact hnext r w (runTier3_run hdeps hl he)
          · exact hnext cached t (runTier3_hit hdeps hl)

end Kept

end Prodinamik.Validators
