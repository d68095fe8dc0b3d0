import Prodinamik.Validators.Warm

namespace Prodinamik.Validators

open Lib Progress ValidatorTimeoutManager ContentAddressableCache

variable {α δ : Type} [EmptyCollection δ] (env : Env α δ) (artifact : α)

/-- What a result that says passed must stand for: a passed or skipped result
for every critical validator, and no call that raised or failed left out. -/
structure Sound (vs : List (Validator α δ)) (results : Results δ) (calls : List (Validator α δ)) :
    Prop where
  critical : ∀ v ∈ vs, v.critical = true → ∃ r, results.result v.name = some r ∧
    (r.passed = true ∨ r.skipped = true)
  raised : ∀ v ∈ calls, runWithTimeout v artifact = none → (results.result v.name).isSome = true
  failed : ∀ v ∈ calls, ∀ r, runWithTimeout v artifact = some r → r.passed = false →
    r.skipped = false → results.result v.name = some r

/-- A call of the validator returns and does not fail. -/
def Fine (v : Validator α δ) : Prop :=
  ∃ r, runWithTimeout v artifact = some r ∧ (r.passed = true ∨ r.skipped = true)

/-- Where one name stands for two validators, neither of them fails. -/
def Shares (u v : Validator α δ) : Prop := u.name = v.name → Fine artifact u ∧ Fine artifact v

/-- Every validator of the second tier returns a result that can be written, or
one that is neither a failure nor critical. -/
structure Answering (tier1 tier2 tier3 : List (Validator α δ)) : Prop where
  answers : ∀ v ∈ tier2, (answer env artifact v).isSome = true ∨
    Fine artifact v ∧ v.critical = false
  shares : (tier1 ++ tier2 ++ tier3).Pairwise (Shares artifact)

/-- A call that has been made returned, and if it failed the results say so. -/
def Kept (v : Validator α δ) (s : Progress α δ) : Prop :=
  v ∈ s.calls → ∃ r, runWithTimeout v artifact = some r ∧
    (r.passed = false → r.skipped = false → s.results.result v.name = some r)

variable {env artifact} {policy : CachePolicy} {u v : Validator α δ} {vs : List (Validator α δ)}
  {s t : Progress α δ} {result : ValidationResult δ}

theorem Shares.symm (h : Shares artifact u v) : Shares artifact v u := fun hname =>
  (h hname.symm).symm

theorem Fine.kept (h : Fine artifact v) (s : Progress α δ) : Kept artifact v s := by
  obtain ⟨r, hr, hfine⟩ := h
  refine fun _ => ⟨r, hr, fun hpassed hskipped => ?_⟩
  rw [hpassed, hskipped] at hfine
  rcases hfine with hfine | hfine <;> cases hfine

theorem Fine.kept_of_called (h : v ∈ s.calls → Fine artifact v) : Kept artifact v s := fun hv =>
  (h hv).kept s hv

omit [EmptyCollection δ] in
theorem calls_of_lookup {o : Option (ValidationResult δ)}
    (h : lookup env policy artifact v s = (o, t)) : t.calls = s.calls := by
  have hcalls : (lookup env policy artifact v s).2.calls = s.calls := lookup_calls
  rwa [h] at hcalls

theorem kept_of_recorded (hrun : runWithTimeout v artifact = some result) :
    Kept artifact v (record v result s) := fun _ =>
  ⟨result, hrun, fun _ _ => by rw [result_record, if_pos rfl]⟩

/-- What is kept or not yet called stays so under the steps of another validator. -/
theorem preserved_kept (h : Shares artifact u v) :
    Preserved env policy artifact [u] (Kept artifact v) := by
  by_cases hname : u.name = v.name
  · have hfine := (h hname).2
    exact ⟨fun _ _ _ _ => hfine.kept _, fun _ _ _ _ => hfine.kept _, fun _ _ _ _ _ => hfine.kept _,
      fun _ _ _ _ _ => hfine.kept _⟩
  · have hne : v ≠ u := fun heq => hname (by rw [heq])
    constructor <;> simp only [List.mem_singleton, forall_eq]
    · exact fun s h => h
    · intro s h hv
      rw [execute_calls, List.mem_append, List.mem_singleton, or_iff_left hne] at hv
      rw [execute_results]
      exact h hv
    · intro r s h
      rw [Kept, charge_calls, charge_results]
      exact h
    · intro r s h hv
      rw [result_record, if_neg (Ne.symm hname)]
      exact h hv

theorem preserved_uncalled (h : Shares artifact u v) :
    Preserved env policy artifact [u] fun s => v ∈ s.calls → Fine artifact v := by
  constructor <;> simp only [List.mem_singleton, forall_eq]
  · exact fun s h => h
  · intro s hs hv
    rw [execute_calls, List.mem_append, List.mem_singleton] at hv
    rcases hv with hv | rfl
    · exact hs hv
    · exact (h rfl).1
  · intro r s hs
    rwa [charge_calls]
  · exact fun r s h => h

theorem preserved_calls (vs : List (Validator α δ)) (v : Validator α δ) :
    Preserved env policy artifact vs fun s => v ∈ s.calls :=
  ⟨fun _ _ _ h => h, fun _ _ _ h => by rw [execute_calls]; exact List.mem_append_left _ h,
    fun _ _ _ _ h => by rwa [charge_calls], fun _ _ _ _ h => h⟩

theorem preserved_called (vs : List (Validator α δ)) :
    Preserved env policy artifact vs fun s => ∀ v ∈ s.calls, v ∈ vs := by
  refine ⟨fun _ _ _ h => h, fun u hu s h v hv => ?_, fun _ _ _ _ h => by rwa [charge_calls],
    fun _ _ _ _ h => h⟩
  rw [execute_calls, List.mem_append, List.mem_singleton] at hv
  rcases hv with hv | rfl
  · exact h v hv
  · exact hu

/-- A first tier that comes through has recorded all of its validators. -/
theorem tier1_recorded (hrun : (runTier1 env policy artifact vs s).1 = some true) :
    ∀ v ∈ vs, ((runTier1 env policy artifact vs s).2.results.result v.name).isSome = true := by
  induction vs generalizing s with
  | nil => exact fun v hv => absurd hv List.not_mem_nil
  | cons v vs ih =>
      rcases hx : runTier1 env policy artifact (v :: vs) s with ⟨o, t⟩
      rw [hx] at hrun
      cases hrun
      intro u hu
      rcases List.mem_cons.mp hu with rfl | hu
      · exact tier1_head_recorded hx
      · rcases hl : lookup env policy artifact v s with ⟨_ | cached, w⟩
        · rcases he : execute env artifact v w with ⟨_ | r, y⟩
          · rw [runTier1_raise hl he] at hx
            cases hx
          · rw [runTier1_run hl he] at hx
            split at hx
            · cases hx
            · have hrest := ih (by rw [hx]) u hu
              rwa [hx] at hrest
        · rw [runTier1_hit hl] at hx
          split at hx
          · have hrest := ih (by rw [hx]) u hu
            rwa [hx] at hrest
          · cases hx

theorem uncalled_cons (hshares : (v :: vs).Pairwise (Shares artifact))
    (h : ∀ u ∈ v :: vs, u ∈ s.calls → Fine artifact u)
    (hstep : ∀ I, Preserved env policy artifact [v] I → I s → I t) :
    ∀ u ∈ vs, u ∈ t.calls → Fine artifact u := fun u hu =>
  hstep _ (preserved_uncalled ((List.pairwise_cons.mp hshares).1 u hu))
    (h u (List.mem_cons_of_mem v hu))

theorem preserved_kept_tail (hshares : (v :: vs).Pairwise (Shares artifact)) :
    Preserved env policy artifact vs (Kept artifact v) :=
  .of_forall fun u hu => preserved_kept ((List.pairwise_cons.mp hshares).1 u hu).symm

/-- Every call of a first tier that comes through is kept. -/
theorem tier1_kept (hshares : vs.Pairwise (Shares artifact))
    (huncalled : ∀ v ∈ vs, v ∈ s.calls → Fine artifact v)
    (hrun : (runTier1 env policy artifact vs s).1 = some true) :
    ∀ v ∈ vs, Kept artifact v (runTier1 env policy artifact vs s).2 := by
  induction vs generalizing s with
  | nil => exact fun v hv => absurd hv List.not_mem_nil
  | cons v vs ih =>
      have hnext : ∀ t : Progress α δ,
          runTier1 env policy artifact (v :: vs) s = runTier1 env policy artifact vs t →
          Kept artifact v t → (∀ I, Preserved env policy artifact [v] I → I s → I t) →
          ∀ u ∈ v :: vs, Kept artifact u (runTier1 env policy artifact (v :: vs) s).2 := by
        intro t hstep hkept hpreserved u hu
        rw [hstep] at hrun ⊢
        rcases List.mem_cons.mp hu with rfl | hu
        · exact (preserved_kept_tail hshares).tier1 hkept
        · exact ih hshares.of_cons (uncalled_cons hshares huncalled hpreserved) hrun u hu
      rcases hl : lookup env policy artifact v s with ⟨_ | cached, w⟩
      · rcases he : execute env artifact v w with ⟨_ | r, y⟩
        · rw [runTier1_raise hl he] at hrun
          cases hrun
        · have hcall := (answer_eq_some.mp (answer_of_execute he).symm).1
          have hstep : runTier1 env policy artifact (v :: vs) s = _ := runTier1_run hl he
          split at hstep
          · rw [hstep] at hrun
            cases hrun
          · exact hnext _ hstep (kept_of_recorded hcall) fun I hI hs => hI.after_run hl he hs r
      · have hstep : runTier1 env policy artifact (v :: vs) s = _ := runTier1_hit hl
        split at hstep
        · refine hnext _ hstep (Fine.kept_of_called fun hv => ?_)
            fun I hI hs => hI.after_hit hl hs cached
          rw [record, calls_of_lookup hl] at hv
          exact huncalled v List.mem_cons_self hv
        · rw [hstep] at hrun
          cases hrun

/-- Every call of a third tier that comes through is kept. -/
theorem tier3_kept (hshares : vs.Pairwise (Shares artifact))
    (huncalled : ∀ v ∈ vs, v ∈ s.calls → Fine artifact v)
    (hrun : (runTier3 env policy artifact vs s).1 = true) :
    ∀ v ∈ vs, Kept artifact v (runTier3 env policy artifact vs s).2 := by
  induction vs generalizing s with
  | nil => exact fun v hv => absurd hv List.not_mem_nil
  | cons v vs ih =>
      have hnext : ∀ t : Progress α δ,
          runTier3 env policy artifact (v :: vs) s = runTier3 env policy artifact vs t →
          Kept artifact v t → (∀ I, Preserved env policy artifact [v] I → I s → I t) →
          ∀ u ∈ v :: vs, Kept artifact u (runTier3 env policy artifact (v :: vs) s).2 := by
        intro t hstep hkept hpreserved u hu
        rw [hstep] at hrun ⊢
        rcases List.mem_cons.mp hu with rfl | hu
        · exact (preserved_kept_tail hshares).tier3 hkept
        · exact ih hshares.of_cons (uncalled_cons hshares huncalled hpreserved) hrun u hu
      cases hdeps : depsPassed v s.results with
      | false =>
          exact hnext _ (runTier3_skip hdeps)
            (Fine.kept_of_called fun hv => huncalled v List.mem_cons_self hv)
            fun I hI hs => hI.record v (List.mem_singleton_self v) _ s hs
      | true =>
          rcases hl : lookup env policy artifact v s with ⟨_ | cached, w⟩
          · rcases he : execute env artifact v w with ⟨_ | r, y⟩
            · rw [runTier3_raise hdeps hl he] at hrun
              cases hrun
            · exact hnext _ (runTier3_run hdeps hl he)
                (kept_of_recorded (answer_eq_some.mp (answer_of_execute he).symm).1)
                fun I hI hs => hI.after_run hl he hs r
          · refine hnext _ (runTier3_hit hdeps hl) (Fine.kept_of_called fun hv => ?_)
              fun I hI hs => hI.after_hit hl hs cached
            rw [record, calls_of_lookup hl] at hv
            exact huncalled v List.mem_cons_self hv

theorem finish_of_none (h : answer env artifact v = none) :
    Job.finish env artifact v s = (execute env artifact v s).2 := by
  rcases he : execute env artifact v s with ⟨o, t⟩
  have ho : o = none := (answer_of_execute he).trans h
  subst ho
  rw [Job.finish, he]

theorem finish_of_some (h : answer env artifact v = some result) :
    Job.finish env artifact v s =
      record v result (charge v result (execute env artifact v s).2) := by
  rcases he : execute env artifact v s with ⟨o, t⟩
  have ho : o = some result := (answer_of_execute he).trans h
  subst ho
  rw [Job.finish, he]

/-- In the second tier too, if the validators answer; the critical ones are recorded. -/
theorem tier2_kept (hshares : vs.Pairwise (Shares artifact))
    (hanswers : ∀ v ∈ vs, (answer env artifact v).isSome = true ∨
      Fine artifact v ∧ v.critical = false)
    (huncalled : ∀ v ∈ vs, v ∈ s.calls → Fine artifact v) (schedule : List Nat) :
    ∀ v ∈ vs, Kept artifact v (runTier2 env policy artifact schedule vs s) ∧ (v.critical = true →
      ((runTier2 env policy artifact schedule vs s).results.result v.name).isSome = true) := by
  refine runTier2_owned (Q := fun phase v s => match phase with
    | .done => Kept artifact v s ∧
        (v.critical = true → (s.results.result v.name).isSome = true)
    | _ => v ∈ s.calls → Fine artifact v) (fun u _ v h phase => ?_) ?_ ?_ ?_
    (fun _ _ h => h.symm) hshares huncalled schedule
  · cases phase with
    | waiting => exact preserved_uncalled h
    | running => exact preserved_uncalled h
    | done => exact (preserved_kept h).and (preserved_recorded [u] v.name).imp
  · intro v _ s t r h hl
    refine ⟨Fine.kept_of_called fun hv => h ?_, fun _ => by rw [result_record, if_pos rfl]; rfl⟩
    rwa [record, calls_of_lookup hl] at hv
  · intro v _ s t h hl hv
    rw [calls_of_lookup hl] at hv
    exact h hv
  · intro v hv s h
    rcases hanswer : answer env artifact v with _ | r
    · rcases hanswers v hv with hsome | ⟨hfine, hcritical⟩
      · rw [hanswer] at hsome
        cases hsome
      · refine ⟨hfine.kept _, fun h => ?_⟩
        rw [hcritical] at h
        cases h
    · rw [finish_of_some hanswer]
      exact ⟨kept_of_recorded (answer_eq_some.mp hanswer).1,
        fun _ => by rw [result_record, if_pos rfl]; rfl⟩

section Run

variable {p : ValidatorPipeline δ} {tier1 tier2 tier3 : List (Validator α δ)}
  {schedule : List Nat} {r : PipelineResult δ}

theorem sound_of_answering (hpassed : r.passed = true)
    (h : (p.run env artifact schedule tier1 tier2 tier3).1 = some r)
    (hanswering : Answering env artifact tier1 tier2 tier3) :
    Sound artifact (tier1 ++ tier2 ++ tier3) r.results
      (p.run env artifact schedule tier1 tier2 tier3).2.calls := by
  rcases run_cases h with ⟨s, -, hfalse, -⟩ | ⟨s, t, h1, h3, hall, hresults, hfinal⟩
  · rw [hpassed] at hfalse
    cases hfalse
  have hshares := hanswering.shares
  rw [List.pairwise_append, List.pairwise_append] at hshares
  obtain ⟨⟨hs1, hs2, hs12⟩, hs3, hs123⟩ := hshares
  have hkept1 := tier1_kept hs1 (fun v _ hv => absurd hv List.not_mem_nil) (congrArg Prod.fst h1)
  have hrecorded1 := tier1_recorded (congrArg Prod.fst h1)
  have hcalled1 : ∀ v ∈ s.calls, v ∈ tier1 := by
    have hcalled : ∀ v ∈ (runTier1 env p.cachePolicy artifact tier1 p.start).2.calls, v ∈ tier1 :=
      (preserved_called tier1).tier1 fun v hv => absurd hv List.not_mem_nil
    rwa [h1] at hcalled
  rw [h1] at hkept1 hrecorded1
  have huncalled2 : ∀ v ∈ tier2, v ∈ s.calls → Fine artifact v := fun v hv hcall =>
    (hs12 v (hcalled1 v hcall) v hv rfl).1
  obtain ⟨s2, hs2'⟩ : ∃ s2, runTier2 env p.cachePolicy artifact schedule tier2 s = s2 := ⟨_, rfl⟩
  have hkept2 : ∀ v ∈ tier2, Kept artifact v s2 ∧
      (v.critical = true → (s2.results.result v.name).isSome = true) :=
    hs2' ▸ tier2_kept hs2 hanswering.answers huncalled2 schedule
  have hrecorded2 : ∀ v ∈ tier1, (s2.results.result v.name).isSome = true := fun v hv =>
    hs2' ▸ (preserved_recorded tier2 v.name).tier2 schedule (hrecorded1 v hv)
  have hkept12 : ∀ v ∈ tier1, Kept artifact v s2 := fun v hv =>
    hs2' ▸ (Preserved.of_forall fun u hu => preserved_kept (hs12 v hv u hu).symm).tier2 schedule
      (hkept1 v hv)
  have hcalled2 : ∀ v ∈ s2.calls, v ∈ tier1 ++ tier2 :=
    hs2' ▸ ((preserved_called (tier1 ++ tier2)).subset fun v hv =>
      List.mem_append_right _ hv).tier2 schedule fun v hv => List.mem_append_left _ (hcalled1 v hv)
  rw [hs2'] at h3
  have hkept3 := tier3_kept hs3 (fun v hv hcall => (hs123 v (hcalled2 v hcall) v hv rfl).1)
    (congrArg Prod.fst h3)
  have hrecorded3 := tier3_recorded (congrArg Prod.fst h3)
  have hcalled3 : ∀ v ∈ (runTier3 env p.cachePolicy artifact tier3 s2).2.calls,
      v ∈ tier1 ++ tier2 ++ tier3 :=
    ((preserved_called (tier1 ++ tier2 ++ tier3)).subset fun v hv =>
      List.mem_append_right _ hv).tier3 fun v hv => List.mem_append_left _ (hcalled2 v hv)
  have hkept13 : ∀ v ∈ tier1 ++ tier2, Kept artifact v s2 →
      Kept artifact v (runTier3 env p.cachePolicy artifact tier3 s2).2 := fun v hv =>
    (Preserved.of_forall fun u hu => preserved_kept (hs123 v hv u hu).symm).tier3
  have hrecorded13 : ∀ v : Validator α δ, (s2.results.result v.name).isSome = true →
      ((runTier3 env p.cachePolicy artifact tier3 s2).2.results.result v.name).isSome = true :=
    fun v => (preserved_recorded tier3 v.name).tier3
  rw [h3] at hkept3 hrecorded3 hcalled3 hkept13 hrecorded13
  have hkept : ∀ v ∈ t.calls, Kept artifact v t := by
    intro v hv
    rcases List.mem_append.mp (hcalled3 v hv) with hv | hv
    · refine hkept13 v hv ?_
      rcases List.mem_append.mp hv with hv | hv
      · exact hkept12 v hv
      · exact (hkept2 v hv).1
    · exact hkept3 v hv
  rw [hfinal, hresults]
  refine ⟨fun v hv hcritical => ?_, fun v hv hnone => ?_, fun v hv x hx hfail hskip => ?_⟩
  · have hsome : (t.results.result v.name).isSome = true := by
      rcases List.mem_append.mp hv with hv | hv
      · refine hrecorded13 v ?_
        rcases List.mem_append.mp hv with hv | hv
        · exact hrecorded2 v hv
        · exact (hkept2 v hv).2 hcritical
      · exact hrecorded3 v hv
    obtain ⟨x, hx⟩ := Option.isSome_iff_exists.mp hsome
    exact ⟨x, hx, (Results.allPassed_iff.mp (hall.symm.trans hpassed) v.name x hx).symm⟩
  · obtain ⟨x, hx, -⟩ := hkept v hv hv
    rw [hnone] at hx
    cases hx
  · obtain ⟨y, hy, hresult⟩ := hkept v hv hv
    rw [hx, Option.some.injEq] at hy
    subst hy
    exact hresult hfail hskip

theorem tier2_calls (hnodup : (vs.map Validator.name).Nodup)
    (hunseen : ∀ v ∈ vs, Unseen env artifact v s.cache) (schedule : List Nat) :
    ∀ v ∈ vs, v ∈ (runTier2 env policy artifact schedule vs s).calls := by
  refine runTier2_owned (Q := fun phase v s => match phase with
    | .done => v ∈ s.calls
    | _ => Unseen env artifact v s.cache) (fun u _ v h phase => ?_) ?_ ?_ ?_
    (fun _ _ h => h.symm) (List.pairwise_map.mp hnodup) hunseen schedule
  · cases phase with
    | waiting => exact preserved_unseen h
    | running => exact preserved_unseen h
    | done => exact preserved_calls [u] v
  · intro v _ s t r h hl
    cases (h.after hl).1
  · exact fun v _ s t h hl => (h.after hl).2
  · intro v _ s _
    have hcalled : v ∈ (execute env artifact v s).2.calls := by
      rw [execute_calls]
      exact List.mem_append_right _ (List.mem_singleton_self v)
    cases hanswer : answer env artifact v with
    | none => rwa [finish_of_none hanswer]
    | some r =>
        rw [finish_of_some hanswer]
        show v ∈ (charge v r (execute env artifact v s).2).calls
        rwa [charge_calls]

theorem answering_of_sound (hdistinct : Distinct tier1 tier2 tier3)
    (hunseen : ∀ v ∈ tier2, Unseen env artifact v p.cache) (hpassed : r.passed = true)
    (h : (p.run env artifact schedule tier1 tier2 tier3).1 = some r)
    (hsound : Sound artifact (tier1 ++ tier2 ++ tier3) r.results
      (p.run env artifact schedule tier1 tier2 tier3).2.calls) :
    Answering env artifact tier1 tier2 tier3 := by
  refine ⟨fun v hv => ?_, (List.pairwise_map.mp hdistinct).imp fun hne hname => absurd hname hne⟩
  rcases run_cases h with ⟨s, -, hfalse, -⟩ | ⟨s, t, h1, h3, -, hresults, hfinal⟩
  · rw [hpassed] at hfalse
    cases hfalse
  have hs : ∀ u ∈ tier2, Unseen env artifact u s.cache ∧ s.results.result u.name = none := by
    intro u hu
    have hkept : Unseen env artifact u (runTier1 env p.cachePolicy artifact tier1 p.start).2.cache ∧
        (runTier1 env p.cachePolicy artifact tier1 p.start).2.results.result u.name = none :=
      (Preserved.of_forall fun w hw => (preserved_unseen (hdistinct.apart.1 w hw u hu)).and
        (preserved_result (hdistinct.apart.1 w hw u hu).symm fun o => o = none)).tier1
        ⟨hunseen u hu, rfl⟩
    rwa [h1] at hkept
  have hanswer : (runTier3 env p.cachePolicy artifact tier3
      (runTier2 env p.cachePolicy artifact schedule tier2 s)).2.results.result v.name =
      answer env artifact v :=
    (Preserved.of_forall fun u hu => preserved_result
      (hdistinct.apart.2 v (List.mem_append_right _ hv) u hu) fun o => o = answer env artifact v).tier3
      ((tier2_unseen hdistinct.nodup.2.1 (fun u hu => (hs u hu).1) (fun u hu => (hs u hu).2)
        schedule).own v hv)
  have hcalled : v ∈ (runTier3 env p.cachePolicy artifact tier3
      (runTier2 env p.cachePolicy artifact schedule tier2 s)).2.calls :=
    (preserved_calls tier3 v).tier3 (tier2_calls hdistinct.nodup.2.1 (fun u hu => (hs u hu).1)
      schedule v hv)
  rw [h3, ← hresults] at hanswer
  rw [h3, ← hfinal] at hcalled
  cases ha : answer env artifact v with
  | some x => exact .inl rfl
  | none =>
      rw [ha] at hanswer
      refine .inr ⟨?_, Bool.eq_false_iff.mpr fun hcritical => ?_⟩
      · cases hrun : runWithTimeout v artifact with
        | none =>
            have hsome := hsound.raised v hcalled hrun
            rw [hanswer] at hsome
            cases hsome
        | some x =>
            refine ⟨x, hrun, ?_⟩
            by_contra hnot
            rw [not_or, Bool.not_eq_true, Bool.not_eq_true] at hnot
            have hfailed := hsound.failed v hcalled x hrun hnot.1 hnot.2
            rw [hanswer] at hfailed
            cases hfailed
      · obtain ⟨x, hx, -⟩ := hsound.critical v
          (List.mem_append_left _ (List.mem_append_right _ hv)) hcritical
        rw [hanswer] at hx
        cases hx

end Run

/-! An article whose rubric is scored by a model that cannot be reached. -/

def rubricScore : Validator String (List String) where
  name := "RubricScore"
  tier := .t2
  critical := true
  validate := fun _ => .raised

/-- The run of two tiers. -/
def articleRun (tier1 tier2 : List (Validator String (List String))) :
    Option (PipelineResult (List String)) × Progress String (List String) :=
  ({} : ValidatorPipeline (List String)).run articleEnv "RISC-V" [] tier1 tier2 []

end Prodinamik.Validators
