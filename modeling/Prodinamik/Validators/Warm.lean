import Prodinamik.Validators.Known

namespace Prodinamik.Validators

open Lib Progress ValidatorTimeoutManager ContentAddressableCache

variable {α δ : Type} [EmptyCollection δ] (env : Env α δ) (policy : CachePolicy) (artifact : α)

/-- A failure that ends the first tier, or would on a hit. -/
def stops (v : Validator α δ) : Bool :=
  (runWithTimeout v artifact).any fun r => !r.passed && (v.critical || reused policy v.tier)

/-- The validators of a tier leave their answers, and nothing else. -/
structure Written (vs : List (Validator α δ)) (s t : Progress α δ) : Prop where
  own : ∀ v ∈ vs, t.results.result v.name = answer env artifact v
  rest : ∀ name, name ∉ vs.map Validator.name → t.results.result name = s.results.result name

variable {env policy artifact} {v : Validator α δ} {vs ws : List (Validator α δ)}
  {s t c : Progress α δ} {result : ValidationResult δ}

theorem runTier1_append :
    runTier1 env policy artifact (vs ++ ws) s =
      match runTier1 env policy artifact vs s with
      | (some true, t) => runTier1 env policy artifact ws t
      | x => x := by
  induction vs generalizing s with
  | nil => rfl
  | cons v vs ih =>
      rw [List.cons_append]
      rcases hl : lookup env policy artifact v s with ⟨_ | cached, t⟩
      · rcases he : execute env artifact v t with ⟨_ | result, u⟩
        · rw [runTier1_raise hl he, runTier1_raise hl he]
        · rw [runTier1_run hl he, runTier1_run hl he]
          split
          · rfl
          · exact ih
      · rw [runTier1_hit hl, runTier1_hit hl]
        split
        · exact ih
        · rfl

theorem goes_on (hstops : stops policy artifact v = false)
    (hrun : runWithTimeout v artifact = some result) :
    (!result.passed && v.critical) = false ∧ (reused policy v.tier = true → result.passed = true) := by
  rw [stops, hrun, Option.any_some] at hstops
  cases hpassed : result.passed <;> cases hcritical : v.critical <;>
    cases hreused : reused policy v.tier <;> simp_all

/-- A first tier that nothing stops comes through, with hits and without. -/
theorem tier1_free (hfree : ∀ v ∈ vs, stops policy artifact v = false)
    (hnodup : (vs.map Validator.name).Nodup)
    (hknown : ∀ v ∈ vs, Known env policy artifact v s.cache)
    (hanswer : ∀ v ∈ vs, (answer env artifact v).isSome = true) :
    ∃ t, runTier1 env policy artifact vs s = (some true, t) ∧ Written env artifact vs s t := by
  induction vs generalizing s with
  | nil => exact ⟨s, rfl, fun v hv => absurd hv List.not_mem_nil, fun name _ => rfl⟩
  | cons v vs ih =>
      rw [List.map_cons, List.nodup_cons] at hnodup
      have hv : v ∈ v :: vs := List.mem_cons_self
      obtain ⟨r, hr⟩ := Option.isSome_iff_exists.mp (hanswer v hv)
      have hrun := (answer_eq_some.mp hr).1
      obtain ⟨hcritical, hreused⟩ := goes_on (hfree v hv) hrun
      have hne : ∀ u ∈ vs, v.name ≠ u.name := fun u hu h => hnodup.1 (h ▸ List.mem_map_of_mem hu)
      have hnext : ∀ w : Progress α δ, (∀ u ∈ vs, Known env policy artifact u (record v r w).cache) →
          w.results = s.results → runTier1 env policy artifact (v :: vs) s =
            runTier1 env policy artifact vs (record v r w) →
          ∃ t, runTier1 env policy artifact (v :: vs) s = (some true, t) ∧
            Written env artifact (v :: vs) s t := by
        intro w hw hresults hstep
        obtain ⟨t, ht, hwritten⟩ := ih (fun u hu => hfree u (List.mem_cons_of_mem v hu)) hnodup.2 hw
          fun u hu => hanswer u (List.mem_cons_of_mem v hu)
        refine ⟨t, hstep.trans ht, fun u hu => ?_, fun name hname => ?_⟩
        · rcases List.mem_cons.mp hu with rfl | hu
          · rw [hwritten.rest u.name hnodup.1, result_record, if_pos rfl, hr]
          · exact hwritten.own u hu
        · rw [List.map_cons, List.mem_cons, not_or] at hname
          rw [hwritten.rest name hname.2, result_record, if_neg hname.1, hresults]
      rcases hl : lookup env policy artifact v s with ⟨_ | cached, w⟩
      · rcases he : execute env artifact v w with ⟨o, x⟩
        have ho : o = some r := (answer_of_execute he).trans hr
        subst ho
        refine hnext x (fun u hu => ?_) ?_ ?_
        · exact (preserved_known fun h => absurd h (hne u hu)).after_run hl he
            (hknown u (List.mem_cons_of_mem v hu)) r
        · rw [results_of_execute he, results_of_lookup hl]
        · rw [runTier1_run hl he, hcritical]
          rfl
      · obtain ⟨hcached, hcounts⟩ := (hknown v hv).hit hl
        rw [hrun, Option.some.injEq] at hcached
        subst hcached
        refine hnext w (fun u hu => ?_) ?_ ?_
        · exact (preserved_known fun h => absurd h (hne u hu)).after_hit hl
            (hknown u (List.mem_cons_of_mem v hu)) r
        · exact results_of_lookup hl
        · rw [runTier1_hit hl, hreused hcounts]
          rfl

/-- In a first run every validator of the first tier that is reached is called. -/
theorem tier1_answers (hfree : ∀ v ∈ vs, stops policy artifact v = false)
    (hnodup : (vs.map Validator.name).Nodup)
    (hunseen : ∀ v ∈ vs, Unseen env artifact v s.cache)
    (hrun : (runTier1 env policy artifact vs s).1 ≠ none) :
    ∀ v ∈ vs, (answer env artifact v).isSome = true := by
  induction vs generalizing s with
  | nil => exact fun v hv => absurd hv List.not_mem_nil
  | cons v vs ih =>
      rw [List.map_cons, List.nodup_cons] at hnodup
      have hv : v ∈ v :: vs := List.mem_cons_self
      rcases hl : lookup env policy artifact v s with ⟨o, w⟩
      obtain ⟨rfl, -⟩ := (hunseen v hv).after hl
      rcases he : execute env artifact v w with ⟨_ | r, x⟩
      · rw [runTier1_raise hl he] at hrun
        exact absurd rfl hrun
      · have hr := answer_of_execute he
        obtain ⟨hcritical, -⟩ := goes_on (hfree v hv) (answer_eq_some.mp hr.symm).1
        rw [runTier1_run hl he, hcritical] at hrun
        have hrest := ih (fun u hu => hfree u (List.mem_cons_of_mem v hu)) hnodup.2 (fun u hu => ?_)
          hrun
        · intro u hu
          rcases List.mem_cons.mp hu with rfl | hu
          · rw [← hr]
            rfl
          · exact hrest u hu
        · have hne : v.name ≠ u.name := fun h => hnodup.1 (h ▸ List.mem_map_of_mem hu)
          exact (preserved_unseen hne).after_run hl he (hunseen u (List.mem_cons_of_mem v hu)) r

theorem result_finish (name : String) :
    (Job.finish env artifact v s).results.result name =
      if name = v.name ∧ (answer env artifact v).isSome = true then answer env artifact v
      else s.results.result name := by
  rcases he : execute env artifact v s with ⟨o, t⟩
  have ho := answer_of_execute he
  rw [Job.finish, he, ← ho]
  cases o with
  | none => simp [results_of_execute he]
  | some r =>
      dsimp only
      rw [result_record, charge_results, results_of_execute he]
      simp

/-- A job of the second tier by what the cache holds about its validator before
and during the call, and by the result that it leaves. -/
def Owned (I J : Validator α δ → ContentAddressableCache δ → Prop)
    (D : Validator α δ → Option (ValidationResult δ) → Prop) (phase : Phase)
    (v : Validator α δ) (s : Progress α δ) : Prop :=
  match phase with
  | .waiting => I v s.cache ∧ s.results.result v.name = none
  | .running => J v s.cache ∧ s.results.result v.name = none
  | .done => D v (s.results.result v.name)

section Tier2

variable {I J : Validator α δ → ContentAddressableCache δ → Prop}
  {D : Validator α δ → Option (ValidationResult δ) → Prop}

theorem preserved_owned {u v : Validator α δ} (hname : u.name ≠ v.name)
    (hI : Preserved env policy artifact [u] fun s => I v s.cache)
    (hJ : Preserved env policy artifact [u] fun s => J v s.cache) (phase : Phase) :
    Preserved env policy artifact [u] (Owned I J D phase v) := by
  cases phase with
  | waiting => exact hI.and (preserved_result hname.symm fun o => o = none)
  | running => exact hJ.and (preserved_result hname.symm fun o => o = none)
  | done => exact preserved_result hname.symm (D v)

theorem tier2_results
    (hI : ∀ u v : Validator α δ, u.name ≠ v.name →
      Preserved env policy artifact [u] fun s => I v s.cache)
    (hJ : ∀ u v : Validator α δ, u.name ≠ v.name →
      Preserved env policy artifact [u] fun s => J v s.cache)
    (hhit : ∀ v (s t : Progress α δ) r, I v s.cache →
      lookup env policy artifact v s = (some r, t) → D v (some r))
    (hmiss : ∀ v (s t : Progress α δ), I v s.cache →
      lookup env policy artifact v s = (none, t) → J v t.cache)
    (hanswer : ∀ v ∈ vs, ∀ c, J v c → D v (answer env artifact v))
    (hnodup : (vs.map Validator.name).Nodup) (hs : ∀ v ∈ vs, I v s.cache)
    (hblank : ∀ v ∈ vs, s.results.result v.name = none) (schedule : List Nat) :
    ∀ v ∈ vs, D v ((runTier2 env policy artifact schedule vs s).results.result v.name) := by
  refine runTier2_owned (Q := Owned I J D)
    (fun u _ v h phase => preserved_owned h (hI u v h) (hJ u v h) phase) ?_ ?_ ?_
    (fun _ _ h => h.symm) (List.pairwise_map.mp hnodup) (fun v hv => ⟨hs v hv, hblank v hv⟩) schedule
  · intro v _ s t r h hl
    rw [Owned, result_record, if_pos rfl]
    exact hhit v s t r h.1 hl
  · intro v _ s t h hl
    exact ⟨hmiss v s t h.1 hl, by rw [results_of_lookup hl]; exact h.2⟩
  · intro v hv s h
    have hD := hanswer v hv s.cache h.1
    rw [Owned, result_finish]
    split
    · exact hD
    · rename_i hnone
      rw [h.2]
      cases ha : answer env artifact v with
      | none => rwa [ha] at hD
      | some r => exact absurd ⟨rfl, by rw [ha]; rfl⟩ hnone

end Tier2

/-- What a first run calls in the second tier stays in memory. -/
theorem tier2_called (hclock : NoTtlElapsed env) (hnodup : (vs.map Validator.name).Nodup)
    (hunseen : ∀ v ∈ vs, Unseen env artifact v s.cache) (schedule : List Nat) :
    ∀ v ∈ vs, (runWithTimeout v artifact).isSome = true →
      Held env artifact v (runTier2 env policy artifact schedule vs s).cache := by
  refine runTier2_owned (Q := fun phase v s => match phase with
    | .done => (runWithTimeout v artifact).isSome = true → Held env artifact v s.cache
    | _ => Unseen env artifact v s.cache) (fun u _ v h phase => ?_) ?_ ?_ ?_
    (fun _ _ h => h.symm) (List.pairwise_map.mp hnodup) hunseen schedule
  · cases phase with
    | waiting => exact preserved_unseen h
    | running => exact preserved_unseen h
    | done => exact (preserved_held hclock [u]).imp
  · intro v _ s t r h hl
    cases (h.after hl).1
  · exact fun v _ s t h hl => (h.after hl).2
  · intro v _ s h hsome
    obtain ⟨result, hrun⟩ := Option.isSome_iff_exists.mp hsome
    have hheld := held_execute hclock h hrun
    rcases he : execute env artifact v s with ⟨_ | r, x⟩
    · rw [he] at hheld
      rwa [Job.finish, he]
    · rw [he] at hheld
      rw [Job.finish, he]
      show Held env artifact v (charge v r x).cache
      rwa [charge_cache]

theorem tier2_rest (schedule : List Nat) {name : String} (hname : name ∉ vs.map Validator.name) :
    (runTier2 env policy artifact schedule vs s).results.result name = s.results.result name :=
  (Preserved.of_forall fun v hv => preserved_result
    (fun h : name = v.name => hname (List.mem_map.mpr ⟨v, hv, h.symm⟩))
    fun o => o = s.results.result name).tier2 schedule rfl

/-- In a first run the second tier leaves the answers of its validators. -/
theorem tier2_unseen (hnodup : (vs.map Validator.name).Nodup)
    (hunseen : ∀ v ∈ vs, Unseen env artifact v s.cache)
    (hblank : ∀ v ∈ vs, s.results.result v.name = none) (schedule : List Nat) :
    Written env artifact vs s (runTier2 env policy artifact schedule vs s) := by
  refine ⟨?_, fun name hname => tier2_rest schedule hname⟩
  refine tier2_results (I := Unseen env artifact) (J := Unseen env artifact)
    (D := fun v o => o = answer env artifact v) (fun u v h => preserved_unseen h)
    (fun u v h => preserved_unseen h) ?_ ?_ (fun v _ c _ => rfl) hnodup hunseen hblank schedule
  · intro v s t r h hl
    cases (h.after hl).1
  · exact fun v s t h hl => (h.after hl).2

/-- With what the cache knows they leave these too, or the results of validators
whose set raised. -/
theorem tier2_known (hnodup : (vs.map Validator.name).Nodup)
    (hknown : ∀ v ∈ vs, Known env policy artifact v s.cache)
    (hwritten : ∀ v ∈ vs, reused policy v.tier = true →
      runWithTimeout v artifact = answer env artifact v)
    (hblank : ∀ v ∈ vs, s.results.result v.name = none) (schedule : List Nat) :
    Written env artifact vs s (runTier2 env policy artifact schedule vs s) := by
  refine ⟨fun v hv => ?_, fun name hname => tier2_rest schedule hname⟩
  have hresult := tier2_results (I := Known env policy artifact) (J := Known env policy artifact)
    (D := fun v o => o = answer env artifact v ∨
      reused policy v.tier = true ∧ o = runWithTimeout v artifact)
    (fun u v h => preserved_known fun h' => absurd h' h)
    (fun u v h => preserved_known fun h' => absurd h' h)
    (fun v s t r h hl => ?hit) (fun v s t h hl => ?miss) (fun v _ c _ => .inl rfl) hnodup hknown
    hblank schedule v hv
  case hit =>
    obtain ⟨hrun, hcounts⟩ := h.hit hl
    exact .inr ⟨hcounts, hrun.symm⟩
  case miss => exact h.after hl
  rcases hresult with hresult | ⟨hcounts, hresult⟩
  · exact hresult
  · rw [hresult, hwritten v hv hcounts]

/-- Where the cache holds on to its entries, a hit gives the result itself. -/
theorem tier2_held (hclock : NoTtlElapsed env) (hnodup : (vs.map Validator.name).Nodup)
    (hknown : ∀ v ∈ vs, Known env policy artifact v s.cache)
    (hblank : ∀ v ∈ vs, s.results.result v.name = none) (schedule : List Nat)
    (hv : v ∈ vs) (hheld : Held env artifact v s.cache) (hreused : reused policy v.tier = true) :
    (runTier2 env policy artifact schedule vs s).results.result v.name =
      runWithTimeout v artifact := by
  have hresult := tier2_results
    (I := fun w c => Known env policy artifact w c ∧ (w = v → Held env artifact w c))
    (J := fun w c => Known env policy artifact w c ∧ w ≠ v)
    (D := fun w o => w = v → o = runWithTimeout w artifact)
    (fun u w h => (preserved_known fun h' => absurd h' h).and (preserved_held hclock [u]).imp)
    (fun u w h => (preserved_known fun h' => absurd h' h).and (Preserved.const [u] (w ≠ v)))
    (fun w s t r h hl _ => (h.1.hit hl).1.symm) (fun w s t h hl => ⟨?known, fun heq => ?miss⟩)
    (fun w _ c h heq => absurd heq h.2) hnodup
    (fun w hw => ⟨hknown w hw, fun heq => heq ▸ hheld⟩) hblank schedule v hv rfl
  case known => exact h.1.after hl
  case miss =>
    obtain ⟨r, x, hhit⟩ := (h.2 heq).hit (heq ▸ hreused)
    rw [hl] at hhit
    cases hhit
  exact hresult

/-- Two runs of the third tier from results that agree: what the first one calls
the second one may find in the cache. -/
theorem tier3_agree (hnodup : (vs.map Validator.name).Nodup)
    (hunseen : ∀ v ∈ vs, Unseen env artifact v c.cache)
    (hknown : ∀ v ∈ vs, Known env policy artifact v s.cache)
    (hagree : c.results.result = s.results.result)
    (hrun : (runTier3 env policy artifact vs c).1 = true) :
    (runTier3 env policy artifact vs s).1 = true ∧
      (runTier3 env policy artifact vs c).2.results.result =
        (runTier3 env policy artifact vs s).2.results.result := by
  induction vs generalizing c s with
  | nil => exact ⟨rfl, hagree⟩
  | cons v vs ih =>
      rw [List.map_cons, List.nodup_cons] at hnodup
      have hv : v ∈ v :: vs := List.mem_cons_self
      have hne : ∀ u ∈ vs, v.name ≠ u.name := fun u hu h => hnodup.1 (h ▸ List.mem_map_of_mem hu)
      have hrecord : ∀ (x y : Progress α δ) r, x.results = c.results → y.results = s.results →
          (record v r x).results.result = (record v r y).results.result := by
        intro x y r hx hy
        funext name
        rw [result_record, result_record, hx, hy, hagree]
      have hsame : depsPassed v s.results = depsPassed v c.results := by
        rw [depsPassed, depsPassed, hagree]
      cases hdeps : depsPassed v c.results with
      | false =>
          rw [runTier3_skip hdeps] at hrun ⊢
          rw [runTier3_skip (hsame.trans hdeps)]
          exact ih hnodup.2 (fun u hu => hunseen u (List.mem_cons_of_mem v hu))
            (fun u hu => hknown u (List.mem_cons_of_mem v hu)) (hrecord c s _ rfl rfl) hrun
      | true =>
          rcases hlc : lookup env policy artifact v c with ⟨o, x⟩
          obtain ⟨rfl, -⟩ := (hunseen v hv).after hlc
          rcases hec : execute env artifact v x with ⟨_ | r, y⟩
          · rw [runTier3_raise hdeps hlc hec] at hrun
            cases hrun
          · have hr := answer_of_execute hec
            have hy : y.results = c.results := (results_of_execute hec).trans (results_of_lookup hlc)
            have hcold := fun u hu => (preserved_unseen (hne u hu)).after_run hlc hec
              (hunseen u (List.mem_cons_of_mem v hu)) r
            rw [runTier3_run hdeps hlc hec] at hrun ⊢
            rcases hl : lookup env policy artifact v s with ⟨_ | cached, w⟩
            · rcases he : execute env artifact v w with ⟨o, z⟩
              have ho : o = some r := (answer_of_execute he).trans hr.symm
              subst ho
              rw [runTier3_run (hsame.trans hdeps) hl he]
              exact ih hnodup.2 hcold
                (fun u hu => (preserved_known fun h => absurd h (hne u hu)).after_run hl he
                  (hknown u (List.mem_cons_of_mem v hu)) r)
                (hrecord y z r hy ((results_of_execute he).trans (results_of_lookup hl))) hrun
            · have hcached : cached = r := Option.some.inj
                (((hknown v hv).hit hl).1.symm.trans (answer_eq_some.mp hr.symm).1)
              subst hcached
              rw [runTier3_hit (hsame.trans hdeps) hl]
              exact ih hnodup.2 hcold
                (fun u hu => (preserved_known fun h => absurd h (hne u hu)).after_hit hl
                  (hknown u (List.mem_cons_of_mem v hu)) cached)
                (hrecord y w cached hy (results_of_lookup hl)) hrun

theorem Written.concat {pre : List (Validator α δ)} (h : Written env artifact pre s t)
    (hname : v.name ∉ pre.map Validator.name) (hanswer : answer env artifact v = some result)
    (hresults : c.results = t.results) :
    Written env artifact (pre ++ [v]) s (record v result c) := by
  constructor
  · intro u hu
    rw [result_record, hresults]
    rcases List.mem_append.mp hu with hu | hu
    · have hne : u.name ≠ v.name := fun heq => hname (List.mem_map.mpr ⟨u, hu, heq⟩)
      rw [if_neg hne, h.own u hu]
    · rw [List.mem_singleton.mp hu, if_pos rfl, hanswer]
  · intro name hnot
    rw [List.map_append, List.mem_append, not_or, List.map_singleton, List.mem_singleton] at hnot
    rw [result_record, if_neg hnot.2, hresults, h.rest name hnot.1]

theorem Written.agree {s' t' : Progress α δ} (h : Written env artifact vs s t)
    (h' : Written env artifact vs s' t') (hagree : s.results.result = s'.results.result) :
    t.results.result = t'.results.result := by
  funext name
  by_cases hname : name ∈ vs.map Validator.name
  · obtain ⟨v, hv, rfl⟩ := List.mem_map.mp hname
    rw [h.own v hv, h'.own v hv]
  · rw [h.rest name hname, h'.rest name hname, hagree]

/-- A first tier has come through some validators and to a failure, which stops
it where it is critical or comes from the cache. -/
structure Failed (env : Env α δ) (policy : CachePolicy) (artifact : α)
    (pre : List (Validator α δ)) (v : Validator α δ) (ws : List (Validator α δ))
    (s t u : Progress α δ) (o : Option (ValidationResult δ)) : Prop where
  before : runTier1 env policy artifact pre s = (some true, t)
  cached : (lookup env policy artifact v t).1 = o
  written : Written env artifact (pre ++ [v]) s u
  kept : ∀ I, Preserved env policy artifact (pre ++ [v]) I → I s → I u
  called : o = none →
    u.cache = (execute env artifact v (lookup env policy artifact v t).2).2.cache
  after : runTier1 env policy artifact (pre ++ v :: ws) s =
    if o.isSome || v.critical then (some false, u) else runTier1 env policy artifact ws u

theorem Failed.reached {pre : List (Validator α δ)} {u : Progress α δ}
    {o : Option (ValidationResult δ)} (h : Failed env policy artifact pre v ws s t u o)
    {I : Progress α δ → Prop} (hI : Preserved env policy artifact pre I) (hs : I s) : I t := by
  have ht := hI.tier1 hs
  rwa [h.before] at ht

theorem tier1_failed {pre : List (Validator α δ)}
    (hfree : ∀ u ∈ pre, stops policy artifact u = false)
    (hnodup : ((pre ++ [v]).map Validator.name).Nodup)
    (hknown : ∀ u ∈ pre ++ [v], Known env policy artifact u s.cache)
    (hanswers : ∀ u ∈ pre, (answer env artifact u).isSome = true)
    (hanswer : answer env artifact v = some result) (hpassed : result.passed = false) :
    ∃ t u o, Failed env policy artifact pre v ws s t u o := by
  rw [List.map_append, List.map_singleton, List.nodup_append] at hnodup
  obtain ⟨hpre, -, hapart⟩ := hnodup
  have hne : ∀ u ∈ pre, u.name ≠ v.name := fun u hu =>
    hapart u.name (List.mem_map_of_mem hu) v.name (List.mem_singleton_self _)
  have hname : v.name ∉ pre.map Validator.name := fun h => by
    obtain ⟨u, hu, heq⟩ := List.mem_map.mp h
    exact hne u hu heq
  have hlast : v ∈ pre ++ [v] := List.mem_append_right _ (List.mem_singleton_self v)
  have hsub : ∀ u ∈ pre, u ∈ pre ++ [v] := fun u hu => List.mem_append_left _ hu
  obtain ⟨t, ht, hwritten⟩ := tier1_free hfree hpre (fun u hu => hknown u (hsub u hu)) hanswers
  have hkept : ∀ I, Preserved env policy artifact (pre ++ [v]) I → I s → I t := by
    intro I hI hs
    have h := (hI.subset hsub).tier1 hs
    rwa [ht] at h
  have hv : Known env policy artifact v t.cache := by
    have h := (Preserved.of_forall fun u hu =>
      preserved_known fun h => absurd h (hne u hu)).tier1 (hknown v hlast)
    rwa [ht] at h
  rcases hl : lookup env policy artifact v t with ⟨_ | cached, x⟩
  · rcases he : execute env artifact v x with ⟨o, y⟩
    have ho : o = some result := (answer_of_execute he).trans hanswer
    subst ho
    refine ⟨t, record v result y, none, ht, by rw [hl], hwritten.concat hname hanswer
      ((results_of_execute he).trans (results_of_lookup hl)), fun I hI hs => ?_,
      fun _ => by rw [hl, he]; rfl, ?_⟩
    · exact (hI.subset fun u hu => List.mem_singleton.mp hu ▸ hlast).after_run hl he
        (hkept I hI hs) result
    · rw [runTier1_append, ht]
      dsimp only
      rw [runTier1_run hl he, hpassed]
      rfl
  · have hcached : cached = result := Option.some.inj
      ((hv.hit hl).1.symm.trans (answer_eq_some.mp hanswer).1)
    subst hcached
    refine ⟨t, record v cached x, some cached, ht, by rw [hl], hwritten.concat hname hanswer
      (results_of_lookup hl), fun I hI hs => ?_, fun hnone => absurd hnone (by simp), ?_⟩
    · exact (hI.subset fun u hu => List.mem_singleton.mp hu ▸ hlast).after_hit hl
        (hkept I hI hs) cached
    · rw [runTier1_append, ht]
      dsimp only
      rw [runTier1_hit hl, hpassed]
      rfl

/-! The two runs. -/

/-- No two validators of the tiers have one name. -/
def Distinct (tier1 tier2 tier3 : List (Validator α δ)) : Prop :=
  ((tier1 ++ tier2 ++ tier3).map Validator.name).Nodup

variable (env policy artifact) in
/-- A failure of the first tier after which no validator has anything to say. -/
structure LastWord (tier1 tier2 tier3 : List (Validator α δ)) (v : Validator α δ) : Prop where
  last : tier1.getLast? = some v
  tier2 : ∀ u ∈ tier2, answer env artifact u = none
  tier3 : tier3 = []
  failed : ∃ u ∈ tier1, ∃ r, runWithTimeout u artifact = some r ∧ r.passed = false ∧
    r.skipped = false

variable (env policy artifact) in
/-- The first failure that ends the first tier, or would on a hit, is critical
or the last word; where there is none, the second tier's results can be
written if they are to be found again. -/
def Steady (tier1 tier2 tier3 : List (Validator α δ)) : Prop :=
  match tier1.find? (stops policy artifact) with
  | some v => v.critical = true ∨ LastWord env artifact tier1 tier2 tier3 v
  | none => ∀ v ∈ tier2, reused policy v.tier = true →
      runWithTimeout v artifact = answer env artifact v

/-- A second result with the verdict of the first, and for every name the same
pass or failure. -/
def SameResult (r : PipelineResult δ) (o : Option (PipelineResult δ)) : Prop :=
  ∃ r', o = some r' ∧ r'.passed = r.passed ∧
    ∀ name, (r'.results.result name).map ValidationResult.passed =
      (r.results.result name).map ValidationResult.passed

omit [EmptyCollection δ] in
theorem SameResult.of_agree {r r' : PipelineResult δ} (hpassed : r'.passed = r.passed)
    (hagree : r'.results.result = r.results.result) : SameResult r (some r') :=
  ⟨r', rfl, hpassed, fun name => by rw [hagree]⟩

omit [EmptyCollection δ] in
theorem SameResult.isSome {r r' : PipelineResult δ} (h : SameResult r (some r')) (name : String) :
    (r'.results.result name).isSome = (r.results.result name).isSome := by
  obtain ⟨r'', heq, -, hname⟩ := h
  cases heq
  have := congrArg Option.isSome (hname name)
  rwa [Option.isSome_map, Option.isSome_map] at this

section Again

variable {p : ValidatorPipeline δ} {tier1 tier2 tier3 : List (Validator α δ)}
  {schedule schedule' : List Nat} {r : PipelineResult δ}

omit [EmptyCollection δ] in
theorem Distinct.eq_of_name (h : Distinct tier1 tier2 tier3)
    (hu : u ∈ tier1 ++ tier2 ++ tier3) (hv : v ∈ tier1 ++ tier2 ++ tier3) (hname : u.name = v.name) :
    u = v :=
  List.inj_on_of_nodup_map h hu hv hname

omit [EmptyCollection δ] in
theorem Distinct.nodup (h : Distinct tier1 tier2 tier3) :
    (tier1.map Validator.name).Nodup ∧ (tier2.map Validator.name).Nodup ∧
      (tier3.map Validator.name).Nodup := by
  rw [Distinct, List.map_append, List.map_append, List.nodup_append, List.nodup_append] at h
  exact ⟨h.1.1, h.1.2.1, h.2.1⟩

omit [EmptyCollection δ] in
theorem Distinct.apart (h : Distinct tier1 tier2 tier3) :
    (∀ u ∈ tier1, ∀ v ∈ tier2, u.name ≠ v.name) ∧
      ∀ u ∈ tier1 ++ tier2, ∀ v ∈ tier3, u.name ≠ v.name := by
  rw [Distinct, List.map_append, List.nodup_append] at h
  obtain ⟨h12, -, h3⟩ := h
  rw [List.map_append, List.nodup_append] at h12
  exact ⟨fun u hu v hv => h12.2.2 u.name (List.mem_map_of_mem hu) v.name (List.mem_map_of_mem hv),
    fun u hu v hv => h3 u.name (List.mem_map_of_mem hu) v.name (List.mem_map_of_mem hv)⟩

omit [EmptyCollection δ] in
theorem Distinct.first (h : Distinct tier1 tier2 tier3) :
    ∀ u ∈ tier1, ∀ v ∈ tier2 ++ tier3, u.name ≠ v.name := by
  intro u hu v hv
  rcases List.mem_append.mp hv with hv | hv
  · exact h.apart.1 u hu v hv
  · exact h.apart.2 u (List.mem_append_left _ hu) v hv

theorem known_after (hdistinct : Distinct tier1 tier2 tier3)
    (hcold : ∀ v ∈ tier1 ++ tier2 ++ tier3, Unseen env artifact v p.cache) (schedule : List Nat) :
    ∀ v ∈ tier1 ++ tier2 ++ tier3, Known env p.cachePolicy artifact v
      (p.run env artifact schedule tier1 tier2 tier3).2.cache := fun v hv =>
  (Preserved.of_forall fun _ hu => preserved_known (hdistinct.eq_of_name hu hv)).run
    (hcold v hv).known schedule

theorem tier1_ne_none (h : (p.run env artifact schedule tier1 tier2 tier3).1 = some r) :
    (runTier1 env p.cachePolicy artifact tier1 p.start).1 ≠ none := by
  rcases run_cases h with ⟨s, h1, -⟩ | ⟨s, -, h1, -⟩
  · simp [h1]
  · simp [h1]

/-- The first two tiers where nothing stops the first one. -/
theorem written_through (hdistinct : Distinct tier1 tier2 tier3) {q : ValidatorPipeline δ}
    (hfree : ∀ v ∈ tier1, stops q.cachePolicy artifact v = false)
    (hanswers : ∀ v ∈ tier1, (answer env artifact v).isSome = true)
    (hknown : ∀ v ∈ tier1, Known env q.cachePolicy artifact v q.cache) :
    ∃ t, runTier1 env q.cachePolicy artifact tier1 q.start = (some true, t) ∧
      Written env artifact tier1 q.start t ∧
      (∀ v ∈ tier2, t.results.result v.name = none) ∧
      (∀ I, Preserved env q.cachePolicy artifact tier1 I → I q.start → I t) := by
  obtain ⟨t, ht, hwritten⟩ := tier1_free (s := q.start) hfree hdistinct.nodup.1 hknown hanswers
  refine ⟨t, ht, hwritten, fun v hv => ?_, fun I hI hq => ?_⟩
  · refine hwritten.rest v.name fun hname => ?_
    obtain ⟨u, hu, heq⟩ := List.mem_map.mp hname
    exact hdistinct.apart.1 u hu v hv heq
  · have h := hI.tier1 hq
    rwa [ht] at h

/-- Agreeing first tiers that come through, and a second tier that writes the
same, make the results the same. -/
theorem same_through (hdistinct : Distinct tier1 tier2 tier3)
    (hcold : ∀ v ∈ tier1 ++ tier2 ++ tier3, Unseen env artifact v p.cache)
    (h : (p.run env artifact schedule tier1 tier2 tier3).1 = some r)
    (hfree : ∀ v ∈ tier1, stops p.cachePolicy artifact v = false)
    (hwritten : ∀ v ∈ tier2, reused p.cachePolicy v.tier = true →
      runWithTimeout v artifact = answer env artifact v) :
    SameResult r ((p.after (p.run env artifact schedule tier1 tier2 tier3).2).run env artifact
      schedule' tier1 tier2 tier3).1 := by
  have hin1 : ∀ v ∈ tier1, v ∈ tier1 ++ tier2 ++ tier3 := fun v hv =>
    List.mem_append_left _ (List.mem_append_left _ hv)
  have hin2 : ∀ v ∈ tier2, v ∈ tier1 ++ tier2 ++ tier3 := fun v hv =>
    List.mem_append_left _ (List.mem_append_right _ hv)
  have hin3 : ∀ v ∈ tier3, v ∈ tier1 ++ tier2 ++ tier3 := fun v hv => List.mem_append_right _ hv
  have hanswers := tier1_answers hfree hdistinct.nodup.1 (fun v hv => hcold v (hin1 v hv))
    (tier1_ne_none h)
  have hknown := known_after hdistinct hcold schedule
  obtain ⟨c, hc, hcwritten, hcblank, hckept⟩ := written_through hdistinct hfree hanswers
    fun v hv => (hcold v (hin1 v hv)).known
  obtain ⟨w, hw, hwwritten, hwblank, hwkept⟩ := written_through
    (q := p.after (p.run env artifact schedule tier1 tier2 tier3).2) hdistinct hfree hanswers
    fun v hv => hknown v (hin1 v hv)
  have hknown2 : ∀ v ∈ tier1 ++ tier2 ++ tier3, Known env p.cachePolicy artifact v w.cache :=
    fun v hv => hwkept _ (Preserved.of_forall fun u hu =>
      preserved_known (hdistinct.eq_of_name (hin1 u hu) hv)) (hknown v hv)
  have hcunseen : ∀ v ∈ tier2 ++ tier3, Unseen env artifact v c.cache := fun v hv =>
    hckept _ (Preserved.of_forall fun u hu => preserved_unseen (hdistinct.first u hu v hv))
      (hcold v (by rw [List.append_assoc]; exact List.mem_append_right _ hv))
  have hc2 : Written env artifact tier2 c (runTier2 env p.cachePolicy artifact schedule tier2 c) :=
    tier2_unseen hdistinct.nodup.2.1 (fun v hv => hcunseen v (List.mem_append_left _ hv)) hcblank
      schedule
  have hw2 := tier2_known hdistinct.nodup.2.1 (fun v hv => hknown2 v (hin2 v hv)) hwritten hwblank
    schedule'
  have hagree := hc2.agree hw2 (hcwritten.agree hwwritten rfl)
  obtain ⟨c3, hc3, hpassed, hresults, -⟩ := run_cases_of_tier1 hc h
  obtain ⟨hw3, hagree3⟩ := tier3_agree hdistinct.nodup.2.2
    (fun v hv => (Preserved.of_forall fun u hu => preserved_unseen
      (hdistinct.apart.2 u (List.mem_append_right _ hu) v hv)).tier2 schedule
      (hcunseen v (List.mem_append_right _ hv)))
    (fun v hv => (Preserved.of_forall fun u hu =>
      preserved_known (hdistinct.eq_of_name (hin2 u hu) (hin3 v hv))).tier2 schedule'
      (hknown2 v (hin3 v hv))) hagree (by rw [hc3])
  rw [hc3] at hagree3
  rcases h3 : runTier3 env p.cachePolicy artifact tier3
    (runTier2 env p.cachePolicy artifact schedule' tier2 w) with ⟨b, t⟩
  rw [h3] at hw3 hagree3
  cases hw3
  rw [run_through hw h3]
  refine .of_agree ?_ (hresults ▸ hagree3.symm)
  rw [hpassed]
  exact Results.allPassed_congr hagree3.symm

/-- The first run at a failure of the first tier. -/
theorem cold_failed {pre ws : List (Validator α δ)} (hdistinct : Distinct (pre ++ v :: ws) tier2 tier3)
    (hcold : ∀ u ∈ (pre ++ v :: ws) ++ tier2 ++ tier3, Unseen env artifact u p.cache)
    (h : (p.run env artifact schedule (pre ++ v :: ws) tier2 tier3).1 = some r)
    (hfree : ∀ u ∈ pre, stops p.cachePolicy artifact u = false)
    (hstops : stops p.cachePolicy artifact v = true) :
    ∃ result t u, answer env artifact v = some result ∧ result.passed = false ∧
      (∀ u ∈ pre, (answer env artifact u).isSome = true) ∧
      Failed env p.cachePolicy artifact pre v ws p.start t u none ∧
      (NoTtlElapsed env → Held env artifact v u.cache) := by
  have hnodup := hdistinct.nodup.1
  rw [← List.singleton_append, ← List.append_assoc, List.map_append] at hnodup
  have hpv := (List.nodup_append.mp hnodup).1
  have hunseen : ∀ u ∈ pre ++ [v], Unseen env artifact u p.cache := by
    intro u hu
    refine hcold u (List.mem_append_left _ (List.mem_append_left _ ?_))
    rw [← List.singleton_append, ← List.append_assoc]
    exact List.mem_append_left _ hu
  have hne := tier1_ne_none h
  have hpre : (runTier1 env p.cachePolicy artifact pre p.start).1 ≠ none := by
    intro hnone
    rw [runTier1_append] at hne
    rcases hx : runTier1 env p.cachePolicy artifact pre p.start with ⟨o, x⟩
    rw [hx] at hnone hne
    cases hnone
    exact hne rfl
  rw [List.map_append, List.nodup_append] at hpv
  have hname : ∀ u ∈ pre, u.name ≠ v.name := fun u hu =>
    hpv.2.2 u.name (List.mem_map_of_mem hu) v.name (List.mem_singleton_self _)
  have hunseenPre : ∀ u ∈ pre, Unseen env artifact u p.cache := fun u hu =>
    hunseen u (List.mem_append_left _ hu)
  have hanswers := tier1_answers hfree hpv.1 hunseenPre hpre
  obtain ⟨t, ht, -⟩ := tier1_free (s := p.start) hfree hpv.1 (fun u hu => (hunseenPre u hu).known)
    hanswers
  have hv : Unseen env artifact v t.cache := by
    have hv : Unseen env artifact v (runTier1 env p.cachePolicy artifact pre p.start).2.cache :=
      (Preserved.of_forall fun u hu => preserved_unseen (hname u hu)).tier1 (s := p.start)
        (hunseen v (List.mem_append_right _ (List.mem_singleton_self v)))
    rwa [ht] at hv
  rcases hl : lookup env p.cachePolicy artifact v t with ⟨o, x⟩
  obtain ⟨rfl, -⟩ := hv.after hl
  rcases he : execute env artifact v x with ⟨_ | result, y⟩
  · rw [runTier1_append, ht] at hne
    dsimp only at hne
    rw [runTier1_raise hl he] at hne
    exact absurd rfl hne
  · have hanswer := (answer_of_execute he).symm
    have hpassed : result.passed = false := by
      rw [stops, (answer_eq_some.mp hanswer).1, Option.any_some, Bool.and_eq_true] at hstops
      simpa using hstops.1
    obtain ⟨t', u, o, hfailed⟩ : ∃ t u o,
        Failed env p.cachePolicy artifact pre v ws p.start t u o := tier1_failed hfree
      (by rwa [List.map_append, List.nodup_append]) (fun u hu => (hunseen u hu).known) hanswers
      hanswer hpassed
    have ht' := hfailed.before
    rw [ht] at ht'
    cases ht'
    have ho := hfailed.cached
    rw [hl] at ho
    subst ho
    refine ⟨result, t, u, hanswer, hpassed, hanswers, hfailed, fun hclock => ?_⟩
    rw [hfailed.called rfl, hl]
    exact held_execute hclock (hv.after hl).2 (answer_eq_some.mp hanswer).1

/-- A stop that is critical ends both runs. -/
theorem same_critical {pre ws : List (Validator α δ)} {t u t' u' : Progress α δ}
    {o o' : Option (ValidationResult δ)} {q : ValidatorPipeline δ} (hcritical : v.critical = true)
    (h : (p.run env artifact schedule (pre ++ v :: ws) tier2 tier3).1 = some r)
    (hfirst : Failed env p.cachePolicy artifact pre v ws p.start t u o)
    (hagain : Failed env q.cachePolicy artifact pre v ws q.start t' u' o') :
    SameResult r (q.run env artifact schedule' (pre ++ v :: ws) tier2 tier3).1 := by
  have hf := hfirst.after
  have ha := hagain.after
  rw [hcritical, Bool.or_true, if_pos rfl] at hf ha
  rw [run_stopped hf] at h
  cases h
  rw [run_stopped ha]
  exact .of_agree rfl (hagain.written.agree hfirst.written rfl)

theorem tier1_head_recorded {w : Validator α δ} {ws : List (Validator α δ)} {b : Bool}
    (h : runTier1 env policy artifact (w :: ws) s = (some b, t)) :
    (t.results.result w.name).isSome = true := by
  have hnow : ∀ r (x : Progress α δ), ((record w r x).results.result w.name).isSome = true := by
    intro r x
    rw [result_record, if_pos rfl]
    rfl
  have hlater : ∀ r (x : Progress α δ),
      runTier1 env policy artifact ws (record w r x) = (some b, t) →
      (t.results.result w.name).isSome = true := by
    intro r x hx
    have hkept : ((runTier1 env policy artifact ws (record w r x)).2.results.result
      w.name).isSome = true := (preserved_recorded ws w.name).tier1 (hnow r x)
    rwa [hx] at hkept
  rcases hl : lookup env policy artifact w s with ⟨_ | cached, x⟩
  · rcases he : execute env artifact w x with ⟨_ | result, y⟩
    · rw [runTier1_raise hl he] at h
      cases h
    · rw [runTier1_run hl he] at h
      split at h
      · cases h
        exact hnow result y
      · exact hlater result y h
  · rw [runTier1_hit hl] at h
    split at h
    · exact hlater cached x h
    · cases h
      exact hnow cached x

/-- A stop that only a hit makes: the first run went on, the second one ends. -/
theorem same_iff_lastWord {pre ws : List (Validator α δ)} {t u t' u' : Progress α δ}
    {o' : Option (ValidationResult δ)} {q : ValidatorPipeline δ}
    (hdistinct : Distinct (pre ++ v :: ws) tier2 tier3)
    (hcold : ∀ w ∈ tier2, Unseen env artifact w p.cache)
    (hanswers : ∀ u ∈ pre ++ [v], (answer env artifact u).isSome = true)
    (hcritical : v.critical = false)
    (h : (p.run env artifact schedule (pre ++ v :: ws) tier2 tier3).1 = some r)
    (hfirst : Failed env p.cachePolicy artifact pre v ws p.start t u none)
    (hagain : Failed env q.cachePolicy artifact pre v ws q.start t' u' o')
    (hhit : o'.isSome = true) :
    SameResult r (q.run env artifact schedule' (pre ++ v :: ws) tier2 tier3).1 ↔
      LastWord env artifact (pre ++ v :: ws) tier2 tier3 v := by
  have ha := hagain.after
  rw [hhit, Bool.true_or, if_pos rfl] at ha
  have hf := hfirst.after
  rw [hcritical, Option.isSome_none, Bool.or_self, if_neg Bool.false_ne_true] at hf
  have hagree : u.results.result = u'.results.result := hfirst.written.agree hagain.written rfl
  have hapart : ∀ w ∈ ws ++ tier2 ++ tier3, w.name ∉ (pre ++ [v]).map Validator.name := by
    intro w hw hname
    have hnodup := hdistinct
    rw [Distinct, ← List.singleton_append, ← List.append_assoc pre, List.append_assoc,
      List.append_assoc, List.map_append, List.nodup_append, ← List.append_assoc ws] at hnodup
    exact hnodup.2.2 w.name hname w.name (List.mem_map_of_mem hw) rfl
  have hblank : ∀ w ∈ ws ++ tier2 ++ tier3, u'.results.result w.name = none := fun w hw =>
    hagain.written.rest w.name (hapart w hw)
  have hu2 : Written env artifact tier2 u (runTier2 env p.cachePolicy artifact schedule tier2 u) := by
    refine tier2_unseen hdistinct.nodup.2.1 (fun w hw => ?_) (fun w hw => ?_) schedule
    · refine hfirst.kept _ (Preserved.of_forall fun x hx => preserved_unseen fun hname => ?_)
        (hcold w hw)
      exact hapart w (List.mem_append_left _ (List.mem_append_right _ hw))
        (hname ▸ List.mem_map_of_mem hx)
    · rw [hagree]
      exact hblank w (List.mem_append_left _ (List.mem_append_right _ hw))
  rw [run_stopped ha]
  constructor
  · intro hsame
    have hnot : ∀ w ∈ ws ++ tier2 ++ tier3, (r.results.result w.name).isSome ≠ true := by
      intro w hw
      rw [← hsame.isSome, hblank w hw]
      exact Bool.false_ne_true
    have hws : ws = [] := by
      cases ws with
      | nil => rfl
      | cons w ws =>
          refine absurd ?_ (hnot w (List.mem_append_left _ (List.mem_append_left _
            List.mem_cons_self)))
          rcases run_cases h with ⟨s, h1, -, hresults, -⟩ | ⟨s, x, h1, h3, -, hresults, -⟩
          · rw [hresults]
            exact tier1_head_recorded (hf.symm.trans h1)
          · have hrecorded : ((runTier3 env p.cachePolicy artifact tier3
                (runTier2 env p.cachePolicy artifact schedule tier2 s)).2.results.result
                w.name).isSome = true :=
              (preserved_recorded tier3 w.name).tier3 ((preserved_recorded tier2 w.name).tier2
                schedule (tier1_head_recorded (hf.symm.trans h1)))
            rw [h3] at hrecorded
            rwa [hresults]
    subst hws
    rcases run_cases h with ⟨s, h1, -⟩ | ⟨s, x, h1, h3, hpassed, hresults, -⟩
    · cases hf.symm.trans h1
    · cases hf.symm.trans h1
      have hanswer : ∀ w ∈ tier2, answer env artifact w = none := by
        intro w hw
        rw [← hu2.own w hw, ← Option.not_isSome_iff_eq_none]
        intro hsome
        have hrecorded : ((runTier3 env p.cachePolicy artifact tier3
            (runTier2 env p.cachePolicy artifact schedule tier2 u)).2.results.result
            w.name).isSome = true := (preserved_recorded tier3 w.name).tier3 hsome
        rw [h3] at hrecorded
        exact hnot w (List.mem_append_left _ (List.mem_append_right _ hw)) (by rwa [hresults])
      have htier3 : tier3 = [] := by
        cases tier3 with
        | nil => rfl
        | cons w tier3 =>
            have hrecorded := tier3_recorded (congrArg Prod.fst h3) w List.mem_cons_self
            rw [h3] at hrecorded
            exact absurd (by rwa [hresults])
              (hnot w (List.mem_append_right _ List.mem_cons_self))
      subst htier3
      cases h3
      refine ⟨by rw [List.getLast?_concat], hanswer, rfl, ?_⟩
      obtain ⟨r', heq, hverdict, -⟩ := hsame
      cases heq
      have hfalse : ¬∀ name x, (runTier2 env p.cachePolicy artifact schedule tier2 u).results.result
          name = some x → x.skipped = true ∨ x.passed = true := by
        rw [← Results.allPassed_iff, ← hpassed, ← hverdict]
        exact Bool.false_ne_true
      simp only [not_forall] at hfalse
      obtain ⟨name, x, hx, hor⟩ := hfalse
      rw [not_or, Bool.not_eq_true, Bool.not_eq_true] at hor
      have hname : name ∉ tier2.map Validator.name := by
        intro hname
        obtain ⟨w, hw, rfl⟩ := List.mem_map.mp hname
        rw [hu2.own w hw, hanswer w hw] at hx
        cases hx
      rw [hu2.rest name hname] at hx
      by_cases hmem : name ∈ (pre ++ [v]).map Validator.name
      · obtain ⟨w, hw, rfl⟩ := List.mem_map.mp hmem
        rw [hfirst.written.own w hw] at hx
        exact ⟨w, hw, x, (answer_eq_some.mp hx).1, hor.2, hor.1⟩
      · rw [hfirst.written.rest name hmem] at hx
        cases hx
  · intro hlast
    have hws : ws = [] := by
      cases ws with
      | nil => rfl
      | cons w ws =>
          have hlast := hlast.last
          rw [← List.singleton_append, ← List.append_assoc,
            List.getLast?_append_of_ne_nil _ (List.cons_ne_nil w ws)] at hlast
          refine absurd (List.mem_map_of_mem ?_) (hapart v (List.mem_append_left _
            (List.mem_append_left _ (List.mem_of_getLast? hlast))))
          exact List.mem_append_right _ (List.mem_singleton_self v)
    subst hws
    have hresults : (runTier2 env p.cachePolicy artifact schedule tier2 u).results.result =
        u'.results.result := by
      funext name
      by_cases hname : name ∈ tier2.map Validator.name
      · obtain ⟨w, hw, rfl⟩ := List.mem_map.mp hname
        rw [hu2.own w hw, hlast.tier2 w hw,
          hblank w (List.mem_append_left _ (List.mem_append_right _ hw))]
      · rw [hu2.rest name hname, hagree]
    obtain rfl := hlast.tier3
    rw [run_through hf rfl] at h
    cases h
    refine .of_agree ?_ hresults.symm
    obtain ⟨w, hw, x, hrun, hpassed, hskipped⟩ := hlast.failed
    obtain ⟨y, hy⟩ := Option.isSome_iff_exists.mp (hanswers w hw)
    rw [(answer_eq_some.mp hy).1, Option.some.injEq] at hrun
    subst hrun
    refine (Bool.eq_false_iff.mpr fun hall => ?_).symm
    rcases Results.allPassed_iff.mp hall w.name y
      (by rw [hresults, hagain.written.own w hw, hy]) with hyes | hyes
    · rw [hskipped] at hyes
      cases hyes
    · rw [hpassed] at hyes
      cases hyes

/-- A result that could not be written is missing the first time only. -/
theorem written_of_same (hclock : NoTtlElapsed env) (hdistinct : Distinct tier1 tier2 tier3)
    (hcold : ∀ v ∈ tier1 ++ tier2 ++ tier3, Unseen env artifact v p.cache)
    (h : (p.run env artifact schedule tier1 tier2 tier3).1 = some r)
    (hfree : ∀ v ∈ tier1, stops p.cachePolicy artifact v = false)
    (hsame : SameResult r ((p.after (p.run env artifact schedule tier1 tier2 tier3).2).run env
      artifact schedule' tier1 tier2 tier3).1) (hv : v ∈ tier2)
    (hreused : reused p.cachePolicy v.tier = true) :
    runWithTimeout v artifact = answer env artifact v := by
  have hin1 : ∀ v ∈ tier1, v ∈ tier1 ++ tier2 ++ tier3 := fun v hv =>
    List.mem_append_left _ (List.mem_append_left _ hv)
  have hin2 : ∀ v ∈ tier2, v ∈ tier1 ++ tier2 ++ tier3 := fun v hv =>
    List.mem_append_left _ (List.mem_append_right _ hv)
  have hanswers := tier1_answers hfree hdistinct.nodup.1 (fun v hv => hcold v (hin1 v hv))
    (tier1_ne_none h)
  have hknown := known_after hdistinct hcold schedule
  obtain ⟨c, hc, hcwritten, hcblank, hckept⟩ := written_through hdistinct hfree hanswers
    fun v hv => (hcold v (hin1 v hv)).known
  obtain ⟨w, hw, hwwritten, hwblank, hwkept⟩ := written_through
    (q := p.after (p.run env artifact schedule tier1 tier2 tier3).2) hdistinct hfree hanswers
    fun v hv => hknown v (hin1 v hv)
  cases hrun : runWithTimeout v artifact with
  | none => rw [answer, hrun, Option.filter_none]
  | some result =>
      cases hanswer : answer env artifact v with
      | some x => rw [← hrun, (answer_eq_some.mp hanswer).1]
      | none =>
          have hcunseen : ∀ u ∈ tier2, Unseen env artifact u c.cache := fun u hu =>
            hckept _ (Preserved.of_forall fun x hx =>
              preserved_unseen (hdistinct.apart.1 x hx u hu)) (hcold u (hin2 u hu))
          obtain ⟨c3, hc3, -, hresults, hfinal⟩ := run_cases_of_tier1 hc h
          have hnone : (runTier2 env p.cachePolicy artifact schedule tier2 c).results.result v.name =
              none :=
            ((tier2_unseen hdistinct.nodup.2.1 hcunseen hcblank schedule).own v hv).trans hanswer
          have hmissing : (runTier3 env p.cachePolicy artifact tier3
              (runTier2 env p.cachePolicy artifact schedule tier2 c)).2.results.result v.name = none :=
            (Preserved.of_forall fun u hu => preserved_result
              (hdistinct.apart.2 v (List.mem_append_right _ hv) u hu) fun o => o = none).tier3 hnone
          have hheld : Held env artifact v (runTier3 env p.cachePolicy artifact tier3
              (runTier2 env p.cachePolicy artifact schedule tier2 c)).2.cache :=
            (preserved_held hclock tier3).tier3 (tier2_called hclock hdistinct.nodup.2.1 hcunseen
              schedule v hv (by rw [hrun]; rfl))
          rw [hc3] at hmissing hheld
          rw [← hfinal] at hheld
          have hheld' : Held env artifact v w.cache := hwkept _ (preserved_held hclock tier1) hheld
          have hknown' : ∀ u ∈ tier2, Known env p.cachePolicy artifact u w.cache := fun u hu =>
            hwkept _ (Preserved.of_forall fun x hx => preserved_known
              (hdistinct.eq_of_name (hin1 x hx) (hin2 u hu))) (hknown u (hin2 u hu))
          have hfound := tier2_held hclock hdistinct.nodup.2.1 hknown' hwblank schedule' hv hheld'
            hreused
          obtain ⟨r', hr', hsame⟩ := hsame
          obtain ⟨w3, hw3, -, hresults', -⟩ := run_cases_of_tier1 hw hr'
          have hrecorded : ((runTier3 env p.cachePolicy artifact tier3
              (runTier2 env p.cachePolicy artifact schedule' tier2 w)).2.results.result
              v.name).isSome = true :=
            (preserved_recorded tier3 v.name).tier3 (by rw [hfound, hrun]; rfl)
          replace hw3 : runTier3 env p.cachePolicy artifact tier3
            (runTier2 env p.cachePolicy artifact schedule' tier2 w) = (true, w3) := hw3
          rw [hw3, ← hresults'] at hrecorded
          have hmap := congrArg Option.isSome (hsame.2 v.name)
          rw [Option.isSome_map, Option.isSome_map, hrecorded, hresults, hmissing] at hmap
          cases hmap

/-- A pipeline that is run again gives the same result exactly when it is steady. -/
theorem same_iff_steady (hclock : NoTtlElapsed env) (hdistinct : Distinct tier1 tier2 tier3)
    (hcold : ∀ v ∈ tier1 ++ tier2 ++ tier3, Unseen env artifact v p.cache)
    (h : (p.run env artifact schedule tier1 tier2 tier3).1 = some r) :
    SameResult r ((p.after (p.run env artifact schedule tier1 tier2 tier3).2).run env artifact
      schedule' tier1 tier2 tier3).1 ↔ Steady env p.cachePolicy artifact tier1 tier2 tier3 := by
  rw [Steady]
  split
  case h_2 hfind =>
    have hfree : ∀ v ∈ tier1, stops p.cachePolicy artifact v = false := fun v hv =>
      Bool.eq_false_iff.mpr (List.find?_eq_none.mp hfind v hv)
    exact ⟨fun hsame v hv hreused => written_of_same hclock hdistinct hcold h hfree hsame hv hreused,
      same_through hdistinct hcold h hfree⟩
  case h_1 v hfind =>
    obtain ⟨hstops, pre, ws, rfl, hfree⟩ := List.find?_eq_some_iff_append.mp hfind
    replace hfree : ∀ u ∈ pre, stops p.cachePolicy artifact u = false := fun u hu => by
      simpa using hfree u hu
    obtain ⟨result, t, u, hanswer, hpassed, hanswers, hfirst, hheld⟩ :=
      cold_failed hdistinct hcold h hfree hstops
    have hin : ∀ w ∈ pre ++ [v], w ∈ (pre ++ v :: ws) ++ tier2 ++ tier3 := by
      intro w hw
      refine List.mem_append_left _ (List.mem_append_left _ ?_)
      rw [← List.singleton_append, ← List.append_assoc]
      exact List.mem_append_left _ hw
    have hlast : v ∈ pre ++ [v] := List.mem_append_right _ (List.mem_singleton_self v)
    have hnodup := hdistinct.nodup.1
    rw [← List.singleton_append, ← List.append_assoc, List.map_append] at hnodup
    have hknown := known_after hdistinct hcold schedule
    obtain ⟨t', u', o', hagain⟩ : ∃ t u o, Failed env p.cachePolicy artifact pre v ws
        (p.after (p.run env artifact schedule (pre ++ v :: ws) tier2 tier3).2).start t u o :=
      tier1_failed hfree
      (List.nodup_append.mp hnodup).1 (fun w hw => hknown w (hin w hw)) hanswers hanswer hpassed
    by_cases hcritical : v.critical = true
    · exact iff_of_true (same_critical hcritical h hfirst hagain) (.inl hcritical)
    · rw [Bool.not_eq_true] at hcritical
      have hreused : reused p.cachePolicy v.tier = true := by
        rw [stops, (answer_eq_some.mp hanswer).1, Option.any_some, hpassed, hcritical] at hstops
        exact hstops
      have hf := hfirst.after
      rw [hcritical, Option.isSome_none, Bool.or_self, if_neg Bool.false_ne_true] at hf
      have hafter : Held env artifact v
          (p.run env artifact schedule (pre ++ v :: ws) tier2 tier3).2.cache := by
        refine (preserved_held hclock (tier2 ++ tier3)).run_of_tier1 ?_ schedule
        rw [hf]
        exact (preserved_held hclock ws).tier1 (hheld hclock)
      have hhit : o'.isSome = true := by
        have hheld' : Held env artifact v t'.cache :=
          hagain.reached (preserved_held hclock pre) hafter
        have hknown' : Known env p.cachePolicy artifact v t'.cache :=
          hagain.reached (Preserved.of_forall fun w hw => preserved_known
            (hdistinct.eq_of_name (hin w (List.mem_append_left _ hw)) (hin v hlast)))
            (hknown v (hin v hlast))
        obtain ⟨cached, x, hl⟩ := hheld'.hit hreused
        have ho := hagain.cached
        rw [← ho]
        exact Option.isSome_iff_exists.mpr ⟨cached, congrArg Prod.fst hl⟩
      rw [or_iff_right (Bool.eq_false_iff.mp hcritical)]
      refine same_iff_lastWord hdistinct (fun w hw => ?_) (fun w hw => ?_) hcritical h hfirst hagain
        hhit
      · exact hcold w (List.mem_append_left _ (List.mem_append_right _ hw))
      · rcases List.mem_append.mp hw with hw | hw
        · exact hanswers w hw
        · rw [List.mem_singleton.mp hw, hanswer]
          rfl

end Again

/-! An article with "harika" in it and too few characters. -/

def articleEnv : Env String (List String) where
  str := id
  sha256 := fun _ => "9f86d081"
  written := fun _ details => some details
  clock := fun _ => 0
  clock_mono := monotone_const

def slopScan : Validator String (List String) where
  name := "SlopScanT1"
  tier := .t1
  critical := true
  validate := fun _ => .returned ⟨false, "❌ 1 error(s):", ["promo_language"], false, 0⟩

def lengthCheck : Validator String (List String) where
  name := "LengthCheck"
  tier := .t1
  validate := fun _ => .returned ⟨false, "Content too short", [], false, 0⟩

def schemaCheck : Validator String (List String) where
  name := "SchemaCheck"
  tier := .t1
  validate := fun _ => .returned ⟨true, "✅ Valid YAML", [], false, 0⟩

/-- The two runs of a first tier. -/
def articleRuns (tier1 : List (Validator String (List String))) :
    Option (PipelineResult (List String)) × Option (PipelineResult (List String)) :=
  let p : ValidatorPipeline (List String) := {}
  let first := p.run articleEnv "harika" [] tier1 [] []
  (first.1, ((p.after first.2).run articleEnv "harika" [] tier1 [] []).1)

theorem noTtlElapsed_article : NoTtlElapsed articleEnv := fun _ _ => Nat.zero_le _

end Prodinamik.Validators
